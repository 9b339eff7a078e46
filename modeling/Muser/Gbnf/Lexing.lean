import Muser.Gbnf.Phrase
import Mathlib.Data.List.DropRight
import Mathlib.Data.List.TakeWhile

/-! # What the parser reads of a spelling

The parts of the parser that leave the rules alone: what they answer is what the bytes spell, and what
is left is what the spelling leaves.
-/

namespace Muser.Gbnf

open Fueled

/-- The parser goes on with what is left, and its rules are the same. -/
structure Parser.Leaves (parser : Parser) (rest : Bytes) (after : Parser) : Prop where
  source : after.source = parser.source
  rules : after.rules = parser.rules
  tail : after.tail = rest
  within : parser.position ≤ parser.source.length → after.position ≤ after.source.length

section Lexing

variable {parser middle after : Parser} {rest : Bytes}

theorem Parser.Leaves.trans {between : Bytes} (first : parser.Leaves between middle) (second : middle.Leaves rest after) :
    parser.Leaves rest after :=
  ⟨second.source.trans first.source, second.rules.trans first.rules, second.tail,
    fun within => second.within (first.within within)⟩

@[simp] theorem Parser.getElem?_position (parser : Parser) : parser.source[parser.position]? = parser.tail.head? := by
  rw [Parser.tail, List.head?_drop]

@[simp] theorem Parser.getElem?_behind (parser : Parser) : parser.source[parser.position + 1]? = parser.tail[1]? := by
  rw [Parser.tail, List.getElem?_drop]

theorem Parser.tail_skip (parser : Parser) (count : ℕ) : (parser.skip count).tail = parser.tail.drop count := by
  rw [Parser.tail, Parser.tail, Parser.skip, List.drop_drop]

theorem Parser.leaves_skip {count : ℕ} (enough : count ≤ parser.tail.length) :
    parser.Leaves (parser.tail.drop count) (parser.skip count) := by
  refine ⟨rfl, rfl, parser.tail_skip count, fun within => ?_⟩
  rw [Parser.tail, List.length_drop] at enough
  show parser.position + count ≤ parser.source.length
  omega

theorem Parser.leaves_prefix {text : Bytes} (is : parser.tail = text ++ rest) :
    parser.Leaves rest (parser.skip text.length) := by
  have enough : text.length ≤ parser.tail.length := by
    rw [is, List.length_append]
    exact Nat.le_add_right _ _
  have leaves := parser.leaves_skip enough
  rwa [is, List.drop_left] at leaves

theorem drop_takeWhile (wanted : UInt8 → Bool) (bytes : Bytes) :
    bytes.drop (bytes.takeWhile wanted).length = bytes.dropWhile wanted := by
  have dropped := @List.drop_left _ (bytes.takeWhile wanted) (bytes.dropWhile wanted)
  rwa [List.takeWhile_append_dropWhile] at dropped

theorem Parser.leaves_while (parser : Parser) (wanted : UInt8 → Bool) :
    parser.Leaves (parser.tail.dropWhile wanted) (parser.skip (parser.tail.takeWhile wanted).length) := by
  rw [← drop_takeWhile]
  exact parser.leaves_skip (List.takeWhile_prefix wanted).length_le

theorem head?_dropWhile_any (wanted : UInt8 → Bool) (bytes : Bytes) : (bytes.dropWhile wanted).head?.any wanted = false := by
  have none_ := List.head?_dropWhile_not wanted bytes
  cases found : (bytes.dropWhile wanted).head? with
  | none => rfl
  | some byte =>
    rw [found] at none_
    simpa using none_

theorem mem_takeWhile_imp {wanted : UInt8 → Bool} {bytes : Bytes} : ∀ byte ∈ bytes.takeWhile wanted, wanted byte = true :=
  fun _ member => List.mem_takeWhile_imp member

namespace Parse

@[simp] theorem peek_answers {value : Option UInt8} : peek.Answers parser value after ↔
    parser.tail.head? = value ∧ parser = after := by
  rw [peek, answers_read, Parser.getElem?_position]

variable {nothing : Unit} {wanted : UInt8 → Bool} {value : ℕ} {steps : ℕ}

theorem advance_answers (answers : advance.Answers parser nothing after) {byte : UInt8}
    (is : parser.tail = byte :: rest) : parser.Leaves rest after := by
  rw [advance, answers_modify] at answers
  rw [← answers]
  exact parser.leaves_prefix (show parser.tail = [byte] ++ rest from is)

theorem skipWhile_answers (answers : (skipWhile wanted).Answers parser nothing after) :
    parser.Leaves (parser.tail.dropWhile wanted) after := by
  rw [skipWhile, answers_modify] at answers
  rw [← answers]
  exact parser.leaves_while wanted

theorem skipHorizontal_answers (answers : skipHorizontal.Answers parser nothing after) :
    parser.Leaves (skipBlanks parser.tail) after := skipWhile_answers answers

variable {bytes : Bytes} {escaped : UInt8} {symbols : List Symbol}

theorem takeWhile_answers (answers : (takeWhile wanted).Answers parser bytes after) :
    bytes = parser.tail.takeWhile wanted ∧ parser.Leaves (parser.tail.dropWhile wanted) after := by
  rw [takeWhile, answers_step, Prod.mk.injEq] at answers
  rw [← answers.2]
  exact ⟨answers.1.symm, parser.leaves_while wanted⟩

theorem expect_answers {expected : Bytes} (answers : (expect expected).Answers parser nothing after) :
    ∃ rest, parser.tail = expected ++ rest ∧ parser.Leaves rest after := by
  simp only [expect, answers_bind, answers_read, answers_ite, answers_fail, answers_modify] at answers
  obtain ⟨_, _, ⟨rfl, rfl⟩, ⟨-, wrong⟩ | ⟨same, rfl⟩⟩ := answers
  · exact wrong.elim
  · rw [not_not] at same
    have whole : parser.tail = expected ++ parser.tail.drop expected.length := by
      conv_lhs => rw [← List.take_append_drop expected.length parser.tail, same]
    exact ⟨_, whole, parser.leaves_prefix whole⟩

/-- Bytes of a kind, and what is left does not go on with the kind. -/
theorem takeWhile_spelled (answers : (takeWhile wanted).Answers parser bytes after) :
    ∃ rest, parser.tail = bytes ++ rest ∧ (∀ byte ∈ bytes, wanted byte = true) ∧ rest.head?.any wanted = false ∧
      parser.Leaves rest after := by
  obtain ⟨rfl, leaves⟩ := takeWhile_answers answers
  exact ⟨_, (List.takeWhile_append_dropWhile ..).symm, mem_takeWhile_imp, head?_dropWhile_any wanted _, leaves⟩

theorem name_answers {value : String} (answers : name.Answers parser value after) :
    ∃ letters rest, parser.tail = letters ++ rest ∧ letters ≠ [] ∧ (∀ byte ∈ letters, isName byte = true) ∧
      rest.head?.any isName = false ∧ value = asciiText letters ∧ parser.Leaves rest after := by
  simp only [name, answers_bind, answers_read, answers_ite, answers_fail, answers_pure] at answers
  obtain ⟨_, _, ⟨-, rfl⟩, letters, _, taken, ⟨-, wrong⟩ | ⟨some_, rfl, rfl⟩⟩ := answers
  · exact wrong.elim
  · obtain ⟨rest, is, each, last, leaves⟩ := takeWhile_spelled taken
    exact ⟨letters, rest, is, some_, each, last, rfl, leaves⟩

theorem number_answers (answers : number.Answers parser value after) :
    ∃ digits rest, parser.tail = digits ++ rest ∧ Digits digits value ∧ parser.Leaves rest after := by
  simp only [number, answers_bind, answers_ite, answers_fail, answers_pure] at answers
  obtain ⟨digits, _, taken, ⟨-, wrong⟩ | ⟨some_, ⟨-, wrong⟩ | ⟨small, rfl, rfl⟩⟩⟩ := answers
  · exact wrong.elim
  · exact wrong.elim
  · obtain ⟨rest, is, each, -, leaves⟩ := takeWhile_spelled taken
    exact ⟨digits, rest, is, ⟨some_, each, rfl⟩, leaves⟩

theorem hex_answers {digits value : ℕ} (answers : (hex digits).Answers parser value after) :
    ∃ text rest character, parser.tail = text ++ rest ∧ text.length = digits ∧ value = Char.toNat character ∧
      fromStrRadix16 text = some value ∧ parser.Leaves rest after := by
  simp only [hex, answers_bind, answers_read, answers_ite, answers_fail] at answers
  obtain ⟨text, _, ⟨rfl, rfl⟩, ⟨-, wrong⟩ | ⟨enough, answers⟩⟩ := answers
  · exact wrong.elim
  · have length : (parser.tail.take digits).length = digits :=
      Nat.le_antisymm (List.length_take_le _ _) (Nat.not_lt.mp enough)
    cases read : fromStrRadix16 (parser.tail.take digits) with
    | none => simp [read] at answers
    | some found =>
      simp only [read, answers_ite, answers_fail, and_false, false_or, not_not, answers_bind, answers_modify,
        answers_pure] at answers
      obtain ⟨valid, _, _, rfl, rfl, rfl⟩ := answers
      refine ⟨_, _, Char.ofNat found, (List.take_append_drop digits parser.tail).symm, length,
        (Utf8.toNat_ofNat valid).symm, read, parser.leaves_skip ?_⟩
      rw [← length]
      exact List.length_take_le' _ _

theorem escapes_short (is : escapes escaped = some (.inl value)) :
    ∃ character, (escaped, character) ∈ shortEscapes ∧ value = Char.toNat character := by
  unfold escapes at is
  split_ifs at is with line return_ tab_ self <;> cases is
  · exact ⟨Char.ofNat 0x0A, by rw [line]; decide, by decide⟩
  · exact ⟨Char.ofNat 0x0D, by rw [return_]; decide, by decide⟩
  · exact ⟨Char.ofNat 0x09, by rw [tab_]; decide, by decide⟩
  · simp only [List.mem_cons, List.not_mem_nil, or_false] at self
    rcases self with rfl | rfl | rfl | rfl | rfl
    · exact ⟨Char.ofNat 0x22, by decide, by decide⟩
    · exact ⟨Char.ofNat 0x5C, by decide, by decide⟩
    · exact ⟨'[', by decide, by decide⟩
    · exact ⟨']', by decide, by decide⟩
    · exact ⟨'-', by decide, by decide⟩

theorem escapes_hex {digits : ℕ} (is : escapes escaped = some (.inr digits)) :
    (escaped, digits) ∈ hexEscapes := by
  unfold escapes at is
  split_ifs at is with _ _ _ _ two four eight <;> cases is
  · rw [two]; decide
  · rw [four]; decide
  · rw [eight]; decide

theorem codepoint_answers (answers : codepoint.Answers parser value after) :
    ∃ character rest, SpelledCharacter character parser.tail rest ∧ value = character.toNat ∧ parser.Leaves rest after := by
  simp only [codepoint, answers_bind, peek_answers, answers_ite] at answers
  obtain ⟨_, _, ⟨rfl, rfl⟩, ⟨escape, _, second, go, answers⟩ | ⟨plain, found, _, read, answers⟩⟩ := answers
  · obtain ⟨behind, is⟩ := List.head?_eq_some_iff.mp escape
    have leaves := advance_answers go is
    obtain ⟨_, _, ⟨rfl, rfl⟩, answers⟩ := answers
    rw [leaves.tail] at answers
    cases behind with
    | nil => simp at answers
    | cons escaped rest =>
      simp only [List.head?_cons, answers_bind] at answers
      obtain ⟨_, third, go, answers⟩ := answers
      have leaves := leaves.trans (advance_answers go leaves.tail)
      cases known : escapes escaped with
      | none => simp [known] at answers
      | some stands =>
        cases stands with
        | inl code =>
          simp only [known, answers_pure] at answers
          obtain ⟨rfl, rfl⟩ := answers
          obtain ⟨character, member, same⟩ := escapes_short known
          exact ⟨character, rest, is ▸ .short member, same, leaves⟩
        | inr digits =>
          simp only [known] at answers
          obtain ⟨text, last, character, whole, length, same, found, more⟩ := hex_answers answers
          refine ⟨character, last, ?_, same, leaves.trans more⟩
          rw [is, ← leaves.tail, whole]
          exact .hex (escapes_hex known) length (found.trans (congrArg some same))
  · rw [answers_read] at read
    obtain ⟨rfl, rfl⟩ := read
    obtain ⟨characters, rest, reads⟩ := Utf8.fromUtf8_reads parser.tail
    generalize Utf8.fromUtf8 parser.tail = answer at reads answers
    cases reads with
    | truncated => simp at answers
    | malformed => simp at answers
    | whole is =>
      cases characters with
      | nil => simp at answers
      | cons character characters =>
        simp only [answers_bind, answers_modify, answers_pure] at answers
        obtain ⟨_, _, rfl, rfl, rfl⟩ := answers
        rw [Utf8.encodeAll_cons] at is
        rw [is] at plain
        refine ⟨character, Utf8.encodeAll characters, ?_, rfl, parser.leaves_prefix is⟩
        rw [is]
        exact .plain plain

/-- A class of one character. -/
def single (character : Char) : Symbol := .character (.one character.toNat)

theorem literalCharacters_answers (answers : (literalCharacters steps).Answers parser symbols after) :
    ∃ characters rest, SpelledLiteral characters parser.tail rest ∧ symbols = characters.map single ∧
      parser.Leaves rest after := by
  induction steps generalizing parser symbols with
  | zero => simp [literalCharacters] at answers
  | succ steps ih =>
    simp only [literalCharacters, answers_bind, peek_answers, answers_ite, answers_fail, answers_pure, and_false,
      false_or] at answers
    obtain ⟨_, _, ⟨rfl, rfl⟩, ⟨closed, _, _, go, rfl, rfl⟩ | ⟨open_, inside, value, _, first, others, _, more, rfl,
      rfl⟩⟩ := answers
    · obtain ⟨rest, is⟩ := List.head?_eq_some_iff.mp closed
      exact ⟨[], rest, is ▸ .close, rfl, advance_answers go is⟩
    · obtain ⟨character, middle, spelled, rfl, leaves⟩ := codepoint_answers first
      obtain ⟨characters, rest, behind, rfl, goes⟩ := ih more
      rw [leaves.tail] at behind
      refine ⟨character :: characters, rest, .character (fun byte head => ?_) spelled behind, rfl, leaves.trans goes⟩
      rw [head] at open_ inside
      exact ⟨fun same => open_ (by rw [same]), by simpa using inside⟩

theorem literal_answers (answers : (literal steps).Answers parser symbols after)
    {input : Bytes} (is : parser.tail = quote :: input) :
    ∃ characters rest, Spelled (.literal characters) parser.tail rest ∧ symbols = characters.map single ∧
      parser.Leaves rest after := by
  rw [literal, answers_bind] at answers
  obtain ⟨_, _, go, answers⟩ := answers
  have leaves := advance_answers go is
  obtain ⟨characters, rest, spelled, rfl, more⟩ := literalCharacters_answers answers
  rw [leaves.tail] at spelled
  exact ⟨characters, rest, is ▸ .literal spelled, rfl, leaves.trans more⟩

/-- A range of characters, by their numbers. -/
def numbers (range : Char × Char) : ℕ × ℕ := (range.1.toNat, range.2.toNat)

theorem classRanges_answers {ranges : List (ℕ × ℕ)} (answers : (classRanges steps).Answers parser ranges after) :
    ∃ spelled rest, SpelledRanges spelled parser.tail rest ∧ ranges = spelled.map numbers ∧ parser.Leaves rest after := by
  induction steps generalizing parser ranges with
  | zero => simp [classRanges] at answers
  | succ steps ih =>
    simp only [classRanges, answers_bind, peek_answers, answers_ite, answers_fail, answers_pure, answers_read,
      Parser.getElem?_behind, and_false, false_or] at answers
    obtain ⟨_, _, ⟨rfl, rfl⟩, ⟨closed, _, _, go, rfl, rfl⟩ | ⟨open_, -, lower, second, first, _, _, ⟨rfl, rfl⟩,
      answers⟩⟩ := answers
    · obtain ⟨rest, is⟩ := List.head?_eq_some_iff.mp closed
      exact ⟨[], rest, is ▸ .close, rfl, advance_answers go is⟩
    · obtain ⟨character, middle, spelled, rfl, leaves⟩ := codepoint_answers first
      obtain ⟨_, _, ⟨rfl, rfl⟩, ⟨dash, _, third, go, upper, fourth, last, ordered, others, _, more, rfl, rfl⟩ |
        ⟨alone, _, _, ⟨rfl, rfl⟩, -, others, _, more, rfl, rfl⟩⟩ := answers
      · obtain ⟨behind, is⟩ := List.head?_eq_some_iff.mp dash.1
        have middle_ : middle = ascii '-' :: behind := leaves.tail.symm.trans is
        subst middle_
        have stepped := advance_answers go is
        obtain ⟨other, rest, spelled', rfl, leaves'⟩ := codepoint_answers last
        obtain ⟨ranges, final, spelledOthers, rfl, goes⟩ := ih more
        rw [stepped.tail] at spelled'
        rw [leaves'.tail] at spelledOthers
        refine ⟨(character, other) :: ranges, final, .range open_ spelled ?_ spelled' ?_ spelledOthers, rfl,
          ((leaves.trans stepped).trans leaves').trans goes⟩
        · rw [opensRange, ← leaves.tail]
          exact dash
        · exact Nat.not_lt.mp ordered
      · obtain ⟨ranges, final, spelledOthers, rfl, goes⟩ := ih more
        rw [leaves.tail] at spelledOthers
        refine ⟨(character, character) :: ranges, final, .single open_ spelled ?_ spelledOthers, rfl, leaves.trans goes⟩
        rw [opensRange, ← leaves.tail]
        exact alone

theorem characterClass_answers {steps : ℕ} {chars : CharSet} (answers : (characterClass steps).Answers parser chars after)
    {input : Bytes} (is : parser.tail = ascii '[' :: input) :
    ∃ inverted ranges rest, Spelled (.characterClass inverted ranges) parser.tail rest ∧
      chars = ⟨inverted, ranges.map numbers⟩ ∧ parser.Leaves rest after := by
  simp only [characterClass, answers_bind, peek_answers, answers_ite, answers_pure] at answers
  obtain ⟨_, second, go, _, _, ⟨rfl, rfl⟩,
    ⟨caret, _, third, go', ranges, _, more, rfl, rfl⟩ | ⟨plain, ranges, _, more, rfl, rfl⟩⟩ := answers
  · have leaves := advance_answers go is
    obtain ⟨behind, is'⟩ := List.head?_eq_some_iff.mp caret
    have leaves' := advance_answers go' is'
    obtain ⟨ranges, rest, spelled, rfl, goes⟩ := classRanges_answers more
    rw [leaves'.tail] at spelled
    refine ⟨true, ranges, rest, ?_, rfl, (leaves.trans leaves').trans goes⟩
    rw [is, ← leaves.tail, is']
    exact @Spelled.characterClass true _ _ _ Bool.noConfusion spelled
  · have leaves := advance_answers go is
    obtain ⟨ranges, rest, spelled, rfl, goes⟩ := classRanges_answers more
    rw [leaves.tail] at spelled plain
    refine ⟨false, ranges, rest, ?_, rfl, leaves.trans goes⟩
    rw [is]
    exact @Spelled.characterClass false _ _ _ (fun _ => plain) spelled

theorem tokenId_answers {value : TokenValue} (answers : tokenId.Answers parser value after) {input : Bytes}
    (is : parser.tail = ascii '[' :: input) :
    ∃ digits rest, input = digits ++ ascii ']' :: ascii '>' :: rest ∧ digits ≠ [] ∧ (∀ byte ∈ digits, isDigit byte = true) ∧
      decimal digits < 2 ^ 32 ∧ value = .id (decimal digits).toUInt32 ∧ parser.Leaves rest after := by
  simp only [tokenId, answers_bind, answers_ite, answers_fail, answers_pure, and_false, false_or] at answers
  obtain ⟨_, _, go, digits, _, taken, some_, small, _, _, closing, rfl, rfl⟩ := answers
  have leaves := advance_answers go is
  obtain ⟨middle, input_, each, -, leaves'⟩ := takeWhile_spelled taken
  obtain ⟨rest, middle_, goes⟩ := expect_answers closing
  rw [leaves'.tail] at middle_
  refine ⟨digits, rest, ?_, some_, each, Nat.not_le.mp small, rfl, (leaves.trans leaves').trans goes⟩
  rw [← leaves.tail, input_, middle_]
  rfl

theorem tokenPiece_answers {value : TokenValue} (answers : tokenPiece.Answers parser value after) :
    ∃ named rest, parser.tail = named ++ ascii '>' :: rest ∧ named ≠ [] ∧
      (∀ byte ∈ named, byte ≠ ascii '>' ∧ isLineEnd byte = false) ∧
      value = .piece (ascii '<' :: named ++ [ascii '>']) ∧ parser.Leaves rest after := by
  simp only [tokenPiece, answers_bind, peek_answers, answers_ite, answers_fail, answers_pure, and_false, false_or] at answers
  obtain ⟨named, _, taken, _, _, ⟨rfl, rfl⟩, -, some_, _, _, closing, rfl, rfl⟩ := answers
  obtain ⟨middle, input_, each, -, leaves⟩ := takeWhile_spelled taken
  obtain ⟨rest, middle_, goes⟩ := expect_answers closing
  rw [leaves.tail] at middle_
  refine ⟨named, rest, by rw [input_, middle_]; rfl, some_, fun byte member => ?_, rfl, leaves.trans goes⟩
  simpa using each byte member

theorem tokenTerminal_answers {terminal : TokenTerminal} (answers : tokenTerminal.Answers parser terminal after) :
    ∃ rest, SpelledToken terminal parser.tail rest ∧ parser.Leaves rest after := by
  simp only [tokenTerminal, answers_bind, peek_answers, answers_ite, answers_pure] at answers
  obtain ⟨_, _, ⟨rfl, rfl⟩, answers⟩ := answers
  -- The part behind the sign, with and without one.
  have body : ∀ {inverted : Bool} {signed opened : Parser} {nothing : Unit},
    (expect [ascii '<']).Answers signed nothing opened →
      ((opened.tail.head? = some (ascii '[') ∧ ∃ found final, tokenId.Answers opened found final ∧
          (⟨inverted, found⟩ : TokenTerminal) = terminal ∧ final = after) ∨
        (¬opened.tail.head? = some (ascii '[') ∧ ∃ found final, tokenPiece.Answers opened found final ∧
          (⟨inverted, found⟩ : TokenTerminal) = terminal ∧ final = after)) →
      ∃ rest, SpelledToken terminal (negation (ascii '!') inverted ++ signed.tail) rest ∧ signed.Leaves rest after := by
    intro inverted signed opened nothing opening inside
    obtain ⟨input, whole, leaves⟩ := expect_answers opening
    rw [whole]
    rw [leaves.tail] at inside
    rcases inside with ⟨bracket, found, final, reads, rfl, rfl⟩ | ⟨plain, found, final, reads, rfl, rfl⟩
    · obtain ⟨behind, rfl⟩ := List.head?_eq_some_iff.mp bracket
      obtain ⟨digits, rest, rfl, some_, each, small, rfl, goes⟩ := tokenId_answers reads leaves.tail
      have spelled := @SpelledToken.id inverted digits rest some_ each small
      rw [List.append_assoc] at spelled
      exact ⟨rest, spelled, leaves.trans goes⟩
    · obtain ⟨named, rest, rest_, some_, each, rfl, goes⟩ := tokenPiece_answers reads
      rw [leaves.tail] at rest_
      subst rest_
      rw [List.head?_append_of_ne_nil _ some_] at plain
      have spelled := @SpelledToken.piece inverted named rest some_ plain each
      rw [List.append_assoc] at spelled
      exact ⟨rest, spelled, leaves.trans goes⟩
  rcases answers with ⟨sign, _, signed, go, _, opened, opening, _, _, ⟨rfl, rfl⟩, inside⟩ |
    ⟨plain, _, opened, opening, _, _, ⟨rfl, rfl⟩, inside⟩
  · rw [sign] at inside
    obtain ⟨input, is⟩ := List.head?_eq_some_iff.mp (of_decide_eq_true sign)
    have leaves := advance_answers go is
    obtain ⟨rest, spelled, goes⟩ := body opening inside
    rw [leaves.tail] at spelled
    exact ⟨rest, is ▸ spelled, leaves.trans goes⟩
  · rw [Bool.not_eq_true] at plain
    rw [plain] at inside
    exact body opening inside

theorem repetitionRange_answers {found : ℕ × Option ℕ} (answers : repetitionRange.Answers parser found after)
    {input : Bytes} (is : parser.tail = ascii '{' :: input) :
    ∃ rest, SpelledRepetition found.1 found.2 parser.tail rest ∧ parser.Leaves rest after := by
  simp only [repetitionRange, answers_bind, peek_answers, answers_ite, answers_fail, answers_pure] at answers
  obtain ⟨_, _, go, minimum, second, first, _, _, ⟨rfl, rfl⟩, answers⟩ := answers
  have leaves := advance_answers go is
  obtain ⟨digits, middle, input_, digits_, leaves'⟩ := number_answers first
  rw [leaves.tail] at input_
  have opened := leaves.trans leaves'
  rw [is, input_]
  rcases answers with ⟨-, _, _, ⟨rfl, rfl⟩, _, _, closing, rfl, rfl⟩ |
    ⟨-, ⟨comma, _, third, go', _, _, ⟨rfl, rfl⟩, answers⟩ |
    ⟨-, _, _, wrong, -⟩⟩
  · obtain ⟨rest, middle_, goes⟩ := expect_answers closing
    rw [leaves'.tail] at middle_
    rw [middle_]
    exact ⟨rest, .exactly digits_, opened.trans goes⟩
  · obtain ⟨behind, is'⟩ := List.head?_eq_some_iff.mp comma
    rw [leaves'.tail] at is'
    have leaves'' := advance_answers go' (leaves'.tail.trans is')
    rw [is']
    rcases answers with ⟨-, maximum, fourth, last, _, _, ⟨rfl, rfl⟩, _, _, closing, rfl, rfl⟩ |
      ⟨-, _, _, ⟨rfl, rfl⟩, _, _, closing, rfl, rfl⟩
    · obtain ⟨digits', middle', behind_, digits'_, furthest⟩ := number_answers last
      obtain ⟨rest, middle_, goes⟩ := expect_answers closing
      rw [furthest.tail] at middle_
      rw [leaves''.tail] at behind_
      rw [behind_, middle_]
      have spelled := @SpelledRepetition.between digits digits' rest _ _ digits_ digits'_
      rw [List.append_assoc] at spelled
      exact ⟨rest, spelled, ((opened.trans leaves'').trans furthest).trans goes⟩
    · obtain ⟨rest, behind_, goes⟩ := expect_answers closing
      rw [leaves''.tail] at behind_
      rw [behind_]
      exact ⟨rest, .atLeast digits_, (opened.trans leaves'').trans goes⟩
  · exact wrong.elim

end Parse

/-- A range of counts ends with its brace. -/
theorem SpelledRepetition.brace {minimum : ℕ} {maximum : Option ℕ} {input rest : Bytes}
    (spelled : SpelledRepetition minimum maximum (ascii '{' :: input) rest) :
    ∃ text, ascii '{' :: input = text ++ [ascii '}'] ++ rest := by
  generalize whole : ascii '{' :: input = all at spelled
  cases spelled with
  | optional | star | plus => exact absurd (List.cons.inj whole).1 (by decide)
  | exactly => exact ⟨_, by rw [List.append_assoc]; rfl⟩
  | @atLeast digits => exact ⟨ascii '{' :: digits ++ [ascii ','], by simp⟩
  | @between digits digits' => exact ⟨ascii '{' :: digits ++ ascii ',' :: digits', by simp⟩

/-- The byte before the position is the last of what was read. -/
theorem Parser.before_eq {text : Bytes} {last : UInt8} (within : parser.position ≤ parser.source.length)
    (source : after.source = parser.source) (inside : after.position ≤ after.source.length)
    (whole : parser.tail = text ++ [last] ++ after.tail) : Parse.before.Answers after (some last) after := by
  have length : parser.source.length - parser.position = text.length + 1 + (after.source.length - after.position) := by
    rw [← List.length_drop, ← Parser.tail, whole, Parser.tail, List.length_append, List.length_append,
      List.length_singleton, List.length_drop]
  rw [source] at length inside
  have position : after.position = parser.position + text.length + 1 := by omega
  rw [Parse.before, answers_read, if_neg (by omega), source, position, Nat.add_sub_cancel]
  refine ⟨?_, rfl⟩
  rw [← List.getElem?_drop, ← Parser.tail, whole, List.append_assoc, List.getElem?_append_right le_rfl, Nat.sub_self]
  rfl

namespace Parse

/-- What an operator spells is read; the byte before it is not the brace of a range. -/
theorem repetition_answers {found : Option (ℕ × Option ℕ)} (answers : repetition.Answers parser found after)
    {last : UInt8} (behind : before.Answers parser (some last) parser) (plain : last ≠ ascii '}')
    (within : parser.position ≤ parser.source.length) :
    (found = none ∧ parser.tail.head?.any opensRepetition = false ∧ parser = after) ∨
      ∃ minimum maximum rest, found = some (minimum, maximum) ∧ SpelledRepetition minimum maximum parser.tail rest ∧
        parser.Leaves rest after := by
  simp only [repetition, answers_bind, answers_ite, answers_pure] at answers
  obtain ⟨bounds, middle, operates, read, _, looked, answers⟩ := answers
  simp only [operator, answers_bind, peek_answers, answers_ite, answers_pure] at operates
  obtain ⟨_, _, ⟨rfl, rfl⟩, operates⟩ := operates
  -- An operator of one byte is still ahead when the parser looks back.
  have single : ∀ {minimum : ℕ} {maximum : Option ℕ} {sign : UInt8}, parser.tail.head? = some sign →
      (∀ rest, SpelledRepetition minimum maximum (sign :: rest) rest) → some (minimum, maximum) = bounds → parser = middle →
      ∃ minimum maximum rest, found = some (minimum, maximum) ∧ SpelledRepetition minimum maximum parser.tail rest ∧
        parser.Leaves rest after := by
    rintro minimum maximum sign head spelled rfl rfl
    obtain ⟨rest, is⟩ := List.head?_eq_some_iff.mp head
    obtain ⟨rfl, rfl⟩ := looked.unique behind
    rcases answers with ⟨-, _, _, go, rfl, rfl⟩ | ⟨brace, -, -⟩
    · exact ⟨minimum, maximum, rest, rfl, is ▸ spelled rest, advance_answers go is⟩
    · exact absurd ⟨rfl, fun same => plain (Option.some.inj same)⟩ brace
  rcases operates with ⟨head, is, here⟩ | ⟨optional, ⟨head, is, here⟩ | ⟨star, ⟨head, is, here⟩ | ⟨plus, operates⟩⟩⟩
  · exact .inr (single head (fun _ => .optional) is here)
  · exact .inr (single head (fun _ => .star) is here)
  · exact .inr (single head (fun _ => .plus) is here)
  · rcases operates with ⟨head, range, _, reads, rfl, rfl⟩ | ⟨open_, rfl, rfl⟩
    · obtain ⟨input, is⟩ := List.head?_eq_some_iff.mp head
      obtain ⟨rest, spelled, leaves⟩ := repetitionRange_answers reads is
      obtain ⟨text, ended⟩ := SpelledRepetition.brace (is ▸ spelled)
      rw [← is, ← leaves.tail] at ended
      obtain ⟨rfl, rfl⟩ := looked.unique (Parser.before_eq within leaves.source (leaves.within within) ended)
      rcases answers with ⟨⟨-, brace⟩, -⟩ | ⟨-, rfl, rfl⟩
      · exact absurd rfl brace
      · exact .inr ⟨range.1, range.2, rest, rfl, spelled, leaves⟩
    · rcases answers with ⟨⟨none_, -⟩, -⟩ | ⟨-, rfl, rfl⟩
      · cases none_
      · refine .inl ⟨rfl, ?_, (looked.unique behind).2.symm⟩
        cases ahead : parser.tail.head? with
        | none => rfl
        | some byte =>
          rw [ahead, Option.some.injEq] at optional star plus open_
          simp [opensRepetition, optional, star, plus, open_]

end Parse

end Lexing

section Spelling

variable {kind : Kind} {phrase : Phrase kind} {input rest : Bytes}

theorem skipBlanks_suffix (input : Bytes) : skipBlanks input <:+ input := List.dropWhile_suffix _

theorem skipComment_suffix (input : Bytes) : skipComment input <:+ input := by
  rw [skipComment]
  split
  · exact List.dropWhile_suffix _
  · exact List.suffix_rfl

theorem Layout.suffix (layout : Layout input rest) : rest <:+ input := by
  induction layout with
  | done => exact List.suffix_rfl
  | skip _ _ ih => exact ih.trans (List.suffix_cons _ _)
  | comment _ ih => exact ih.trans (skipComment_suffix _)

theorem SpelledCharacter.suffix {character : Char} (spelled : SpelledCharacter character input rest) :
    rest <:+ input ∧ rest.length < input.length := by
  cases spelled with
  | plain =>
    refine ⟨List.suffix_append _ _, ?_⟩
    rw [List.length_append]
    exact Nat.lt_add_of_pos_left (List.length_pos_of_ne_nil (Utf8.encode_ne_nil character))
  | @short letter => exact ⟨⟨[backslash, letter], rfl⟩, by simp only [List.length_cons]; lia⟩
  | @hex letter digits text => exact ⟨⟨backslash :: letter :: text, rfl⟩, by simp; lia⟩

theorem SpelledLiteral.ends {characters : List Char} (spelled : SpelledLiteral characters input rest) :
    ∃ text, input = text ++ quote :: rest := by
  induction spelled with
  | close => exact ⟨[], rfl⟩
  | character _ first _ ih =>
    obtain ⟨text, rfl⟩ := ih
    obtain ⟨front, rfl⟩ := first.suffix.1
    exact ⟨front ++ text, (List.append_assoc _ _ _).symm⟩

theorem SpelledRanges.ends {ranges : List (Char × Char)} (spelled : SpelledRanges ranges input rest) :
    ∃ text, input = text ++ ascii ']' :: rest := by
  induction spelled with
  | close => exact ⟨[], rfl⟩
  | single _ first _ _ ih =>
    obtain ⟨text, rfl⟩ := ih
    obtain ⟨front, rfl⟩ := first.suffix.1
    exact ⟨front ++ text, (List.append_assoc _ _ _).symm⟩
  | range _ first _ second _ _ ih =>
    obtain ⟨text, rfl⟩ := ih
    obtain ⟨between, rfl⟩ := second.suffix.1
    obtain ⟨front, rfl⟩ := first.suffix.1
    exact ⟨front ++ ascii '-' :: between ++ text, by simp⟩

theorem SpelledToken.ends {terminal : TokenTerminal} (spelled : SpelledToken terminal input rest) :
    ∃ text, input = text ++ ascii '>' :: rest := by
  cases spelled with
  | @id inverted digits =>
    exact ⟨negation (ascii '!') inverted ++ ascii '<' :: ascii '[' :: digits ++ [ascii ']'], by simp⟩
  | piece => exact ⟨_, rfl⟩

theorem SpelledRepetition.suffix {minimum : ℕ} {maximum : Option ℕ}
    (spelled : SpelledRepetition minimum maximum input rest) :
    rest <:+ input := by
  cases spelled with
  | optional => exact ⟨[ascii '?'], rfl⟩
  | star => exact ⟨[ascii '*'], rfl⟩
  | plus => exact ⟨[ascii '+'], rfl⟩
  | @exactly digits => exact ⟨ascii '{' :: digits ++ [ascii '}'], by simp⟩
  | @atLeast digits => exact ⟨ascii '{' :: digits ++ [ascii ',', ascii '}'], by simp⟩
  | @between digits digits' => exact ⟨ascii '{' :: digits ++ ascii ',' :: digits' ++ [ascii '}'], by simp⟩

theorem Spelled.suffix (spelled : Spelled phrase input rest) : rest <:+ input := by
  induction spelled with
  | one _ _ ih => exact ih
  | choice _ _ ih ih' => exact ih'.trans ((List.suffix_cons _ _).trans ih)
  | empty => exact skipBlanks_suffix _
  | followed _ _ _ ih ih' => exact (ih'.trans ih).trans (skipBlanks_suffix _)
  | once _ _ ih => exact (skipBlanks_suffix _).trans ih
  | repeated _ operator _ ih => exact (operator.suffix.trans (skipBlanks_suffix _)).trans ih
  | literal inside =>
    obtain ⟨text, rfl⟩ := inside.ends
    exact ⟨quote :: text ++ [quote], by simp⟩
  | @characterClass inverted _ _ _ _ inside =>
    obtain ⟨text, rfl⟩ := inside.ends
    exact ⟨ascii '[' :: negation (ascii '^') inverted ++ text ++ [ascii ']'], by simp⟩
  | any => exact List.suffix_cons _ _
  | group _ ih => exact (List.suffix_cons _ _).trans (ih.trans (List.suffix_cons _ _))
  | token inside =>
    obtain ⟨text, rfl⟩ := inside.ends
    exact ⟨text ++ [ascii '>'], by simp⟩
  | name => exact List.suffix_append _ _

theorem isName_plain {byte : UInt8} (is : isName byte = true) : endsSequence byte = false ∧ byte ≠ ascii '}' := by
  refine ⟨?_, ?_⟩
  · cases ends : endsSequence byte with
    | false => rfl
    | true =>
      simp only [endsSequence, isLineEnd, Bool.or_eq_true, beq_iff_eq] at ends
      rcases ends with ((rfl | rfl | rfl) | rfl) | rfl <;> exact absurd is (by decide)
  · rintro rfl
    exact absurd is (by decide)

/-- What an atom is spelled with does not end with a closing brace, and does not end a sequence. -/
theorem Spelled.atom {atom : Phrase .atom} (spelled : Spelled atom input rest) :
    (∃ text last, input = text ++ [last] ++ rest ∧ last ≠ ascii '}') ∧ input.head?.all endsSequence = false := by
  cases spelled with
  | literal inside =>
    obtain ⟨text, rfl⟩ := inside.ends
    exact ⟨⟨quote :: text, quote, by simp, by decide⟩, by rfl⟩
  | @characterClass inverted _ _ _ _ inside =>
    obtain ⟨text, rfl⟩ := inside.ends
    exact ⟨⟨ascii '[' :: negation (ascii '^') inverted ++ text, ascii ']', by simp, by decide⟩, by rfl⟩
  | any => exact ⟨⟨[], ascii '.', rfl, by decide⟩, by rfl⟩
  | group inside =>
    obtain ⟨text, is⟩ := inside.suffix
    exact ⟨⟨ascii '(' :: text, ascii ')', by simp [← is], by decide⟩, by rfl⟩
  | token inside =>
    refine ⟨?_, ?_⟩
    · obtain ⟨text, rfl⟩ := inside.ends
      exact ⟨text, ascii '>', by simp, by decide⟩
    · cases inside with
      | @id inverted => cases inverted <;> rfl
      | @piece inverted => cases inverted <;> rfl
  | @name letters _ some_ each _ =>
    refine ⟨⟨letters.dropLast, letters.getLast some_, by rw [List.dropLast_append_getLast], ?_⟩, ?_⟩
    · exact (isName_plain (each _ (List.getLast_mem some_))).2
    · cases letters with
      | nil => exact absurd rfl some_
      | cons byte letters => exact (isName_plain (each byte List.mem_cons_self)).1

theorem Spelled.item {item : Phrase .item} (spelled : Spelled item input rest) :
    rest.length < input.length ∧ input.head?.all endsSequence = false := by
  have shorter : ∀ {atom : Phrase .atom} {middle : Bytes}, Spelled atom input middle → rest <:+ middle →
      rest.length < input.length ∧ input.head?.all endsSequence = false := by
    intro atom middle inside behind
    obtain ⟨⟨text, last, rfl, -⟩, head⟩ := inside.atom
    have length := behind.length_le
    refine ⟨?_, head⟩
    rw [List.length_append, List.length_append, List.length_singleton]
    omega
  cases spelled with
  | once inside => exact shorter inside (skipBlanks_suffix _)
  | repeated inside operator => exact shorter inside (operator.suffix.trans (skipBlanks_suffix _))

/-- A sequence leaves no blanks. -/
theorem Spelled.sequence {sequence : Phrase .sequence} (spelled : Spelled sequence input rest) : skipBlanks rest = rest := by
  generalize is : Kind.sequence = kind at sequence
  induction spelled with
  | empty => exact List.dropWhile_idempotent _ _
  | followed _ _ _ _ ih => exact ih is
  | _ => cases is

end Spelling

end Muser.Gbnf
