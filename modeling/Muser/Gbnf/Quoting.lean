import Muser.Gbnf.Exact
import Muser.Gbnf.Spelling

/-! # The meaning of a text

A text that is parsed has one meaning, and its rules keep it unless a name it writes is one that the
parser makes for a group or a repetition. A quoted literal is written so that it reads back.
-/

namespace Muser.Gbnf

open Fueled Parse

/-- A character as it stands between quotes. -/
def quotedCharacter (character : Char) : List Char :=
  if character = Char.ofNat 0x5C then [Char.ofNat 0x5C, Char.ofNat 0x5C]
  else if character = Char.ofNat 0x22 then [Char.ofNat 0x5C, Char.ofNat 0x22]
  else if character = Char.ofNat 0x0A then [Char.ofNat 0x5C, 'n']
  else if character = Char.ofNat 0x0D then [Char.ofNat 0x5C, 'r']
  else if character = Char.ofNat 0x09 then [Char.ofNat 0x5C, 't']
  else [character]

def quotedLiteral (value : List Char) : List Char :=
  Char.ofNat 0x22 :: value.flatMap quotedCharacter ++ [Char.ofNat 0x22]

section Quoting

variable {parser : Parser} {rest : Bytes}

variable {byte : UInt8} {character : Char} {steps : ℕ}

theorem advance_leaves (is : parser.tail = byte :: rest) :
    advance.Answers parser () (parser.skip 1) ∧ parser.Leaves rest (parser.skip 1) :=
  ⟨answers_modify.mpr rfl, @Parser.leaves_prefix parser rest [byte] is⟩

/-- A character that is written with a backslash is read. -/
theorem codepoint_short {letter : UInt8} {value : ℕ} (known : escapes letter = some (.inl value))
    (is : parser.tail = backslash :: letter :: rest) :
    ∃ after, codepoint.Answers parser value after ∧ parser.Leaves rest after := by
  obtain ⟨first, leaves⟩ := advance_leaves is
  obtain ⟨second, leaves'⟩ := advance_leaves leaves.tail
  refine ⟨_, ?_, leaves.trans leaves'⟩
  simp only [codepoint, answers_bind, peek_answers, answers_ite]
  refine ⟨_, _, ⟨rfl, rfl⟩, .inl ⟨by rw [is]; rfl, _, _, first, _, _, ⟨rfl, rfl⟩, ?_⟩⟩
  simp only [leaves.tail, List.head?_cons, answers_bind]
  refine ⟨_, _, second, ?_⟩
  simp only [known, answers_pure, and_self]

variable {others : List Char}

/-- A character whose first byte is one of one byte is that character. -/
theorem eq_of_head {character one : Char} (alone : Utf8.encode one = [byte])
    (head : (Utf8.encodeAll (character :: others)).head? = some byte) : character = one := by
  obtain ⟨behind, starts⟩ := List.head?_eq_some_iff.mp head
  have decoded := Utf8.decode_encode character (Utf8.encodeAll others)
  rw [← Utf8.encodeAll_cons, starts, show byte :: behind = Utf8.encode one ++ behind by rw [alone]; rfl,
    Utf8.decode_encode] at decoded
  injection decoded with values
  exact Char.toNat_inj.mp values.symm

/-- A character that is written as it is is read. -/
theorem codepoint_plain (plain : character ≠ Char.ofNat 0x5C)
    (is : parser.tail = Utf8.encodeAll (character :: others)) :
    ∃ after, codepoint.Answers parser character.toNat after ∧ parser.Leaves (Utf8.encodeAll others) after := by
  have cut := is
  rw [Utf8.encodeAll_cons] at cut
  refine ⟨_, ?_, parser.leaves_prefix cut⟩
  simp only [codepoint, answers_bind, peek_answers, answers_ite]
  refine ⟨_, _, ⟨rfl, rfl⟩, .inr ⟨fun escape => plain (eq_of_head rfl (is ▸ escape)), _, _, answers_read.mpr ⟨rfl, rfl⟩, ?_⟩⟩
  rw [is, Utf8.fromUtf8_encodeAll]
  simp only [answers_bind, answers_modify, answers_pure]
  exact ⟨(), _, rfl, trivial, rfl⟩

theorem codepoint_quoted (is : parser.tail = Utf8.encodeAll (quotedCharacter character ++ others)) :
    ∃ after, codepoint.Answers parser character.toNat after ∧ parser.Leaves (Utf8.encodeAll others) after := by
  rw [quotedCharacter] at is
  split_ifs at is with backslash_ quote_ line return_ tab_
  · subst backslash_
    exact @codepoint_short parser _ backslash _ (by decide) is
  · subst quote_
    exact @codepoint_short parser _ quote _ (by decide) is
  · subst line
    exact @codepoint_short parser _ (ascii 'n') _ (by decide) is
  · subst return_
    exact @codepoint_short parser _ (ascii 'r') _ (by decide) is
  · subst tab_
    exact @codepoint_short parser _ (ascii 't') _ (by decide) is
  · exact codepoint_plain backslash_ is

/-- What a character is written with between quotes does not end the literal. -/
theorem quotedCharacter_inside (character : Char) (others : List Char) :
    ∃ byte, (Utf8.encodeAll (quotedCharacter character ++ others)).head? = some byte ∧ byte ≠ quote ∧
      isLineEnd byte = false := by
  rw [quotedCharacter]
  split_ifs with backslash_ quote_ line return_ tab_
  · exact ⟨backslash, rfl, by decide, by decide⟩
  · exact ⟨backslash, rfl, by decide, by decide⟩
  · exact ⟨backslash, rfl, by decide, by decide⟩
  · exact ⟨backslash, rfl, by decide, by decide⟩
  · exact ⟨backslash, rfl, by decide, by decide⟩
  · cases starts : (Utf8.encodeAll ([character] ++ others)).head? with
    | none =>
      rw [List.head?_eq_none_iff, List.singleton_append, Utf8.encodeAll_cons, List.append_eq_nil_iff] at starts
      exact absurd starts.1 (Utf8.encode_ne_nil character)
    | some byte =>
      refine ⟨byte, rfl, ?_, ?_⟩
      · rintro rfl
        exact quote_ (eq_of_head rfl starts)
      · rw [isLineEnd, Bool.or_eq_false_iff, beq_eq_false_iff_ne, beq_eq_false_iff_ne]
        constructor
        · rintro rfl
          exact return_ (eq_of_head rfl starts)
        · rintro rfl
          exact line (eq_of_head rfl starts)

theorem literalCharacters_quoted {value others : List Char} (enough : value.length < steps)
    (is : parser.tail = Utf8.encodeAll (value.flatMap quotedCharacter ++ Char.ofNat 0x22 :: others)) :
    ∃ after, (literalCharacters steps).Answers parser (value.map single) after ∧
      parser.Leaves (Utf8.encodeAll others) after := by
  induction value generalizing parser steps with
  | nil =>
    obtain ⟨steps, rfl⟩ := Nat.exists_eq_add_of_lt enough
    obtain ⟨go, leaves⟩ := advance_leaves is
    refine ⟨_, ?_, leaves⟩
    simp only [literalCharacters, answers_bind, peek_answers, answers_ite]
    exact ⟨_, _, ⟨rfl, rfl⟩, .inl ⟨by rw [is]; rfl, _, _, go, answers_pure.mpr ⟨rfl, rfl⟩⟩⟩
  | cons character value ih =>
    cases steps with
    | zero => cases enough
    | succ steps =>
      rw [List.flatMap_cons, List.append_assoc] at is
      obtain ⟨byte, head, no_quote, no_end⟩ :=
        quotedCharacter_inside character (value.flatMap quotedCharacter ++ Char.ofNat 0x22 :: others)
      obtain ⟨middle, first, leaves⟩ := codepoint_quoted is
      obtain ⟨after, more, leaves'⟩ := ih (Nat.lt_of_succ_lt_succ enough) leaves.tail
      refine ⟨after, ?_, leaves.trans leaves'⟩
      simp only [literalCharacters, answers_bind, peek_answers, answers_ite]
      refine ⟨_, _, ⟨rfl, rfl⟩, .inr ⟨?_, .inr ⟨?_, _, _, first, _, _, more, answers_pure.mpr ⟨rfl, rfl⟩⟩⟩⟩
      · rw [is, head]
        exact fun same => no_quote (Option.some.inj same)
      · rw [is, head]
        simpa using no_end

/-- A quoted literal is read as the characters it was made for. -/
theorem literal_quoted {value others : List Char} (enough : value.length < steps)
    (is : parser.tail = Utf8.encodeAll (quotedLiteral value ++ others)) :
    ∃ after, (literal steps).Answers parser (value.map single) after ∧ parser.Leaves (Utf8.encodeAll others) after := by
  rw [quotedLiteral, List.cons_append, List.cons_append, List.append_assoc] at is
  obtain ⟨go, leaves⟩ := advance_leaves is
  obtain ⟨after, answers, leaves'⟩ := literalCharacters_quoted enough leaves.tail
  exact ⟨after, answers_bind.mpr ⟨_, _, go, answers⟩, leaves.trans leaves'⟩

end Quoting

section Meaning

variable {source : List Char} {root : String} {rules : Rules} {grammar : Grammar}

theorem parseRules_preserves_iff (parsed : parseRules source = some (.ok rules)) (is : rules.grammar root = .ok grammar)
    {definitions : Definitions} (spelled : SpelledDefinitions definitions (Utf8.encodeAll source)) :
    Preserves definitions rules grammar ↔ definitions.Distinct := by
  obtain ⟨found, spelled', of⟩ := parseRules_spelled parsed
  obtain rfl := spelled.unique spelled'
  exact preserves_iff of spelled.formed is

/-- A parsed grammar derives the words of its root that its text says, where the text writes no name that is made. -/
theorem parse_derives_iff (parsed : parse source root = some (.ok grammar)) {definitions : Definitions}
    (spelled : SpelledDefinitions definitions (Utf8.encodeAll source)) (distinct : definitions.Distinct)
    (written : root ∈ definitions.writes)
    (word : List Input) : grammar.Derives grammar.root word ↔ Means definitions (.name root) word := by
  obtain ⟨rules, found, is⟩ := parse_eq parsed
  obtain ⟨definitions', spelled', of⟩ := parseRules_spelled found
  obtain rfl := spelled.unique spelled'
  rw [Rules.grammar_root is]
  exact derives_iff_means of spelled.formed is distinct written word

/-- A parser ends on every text and reads a quoted literal back. A text that it accepts says one thing,
and the grammar keeps that where the text writes no name that the parser makes, and only there. -/
theorem parse_preserves_iff (source : List Char) (root : String) :
    (parse source root).isSome ∧
    (∀ value others (parser : Parser) steps, value.length < steps →
      parser.tail = Utf8.encodeAll (quotedLiteral value ++ others) →
      ∃ after, (literal steps).Answers parser (value.map single) after ∧ parser.Leaves (Utf8.encodeAll others) after) ∧
    ∀ rules grammar, parseRules source = some (.ok rules) → rules.grammar root = .ok grammar →
      (∃! definitions, SpelledDefinitions definitions (Utf8.encodeAll source)) ∧
      ∀ definitions, SpelledDefinitions definitions (Utf8.encodeAll source) →
        (Preserves definitions rules grammar ↔ definitions.Distinct) := by
  refine ⟨parse_ends source root, fun _ _ _ _ => literal_quoted, fun rules grammar parsed is =>
    ⟨?_, fun definitions spelled => ?_⟩⟩
  · obtain ⟨definitions, spelled, -⟩ := parseRules_spelled parsed
    exact ⟨definitions, spelled, fun other spelled' => spelled'.unique spelled⟩
  · exact parseRules_preserves_iff parsed is spelled

def layeredRules : Rules := ⟨["a", "__generated-0", "__generated-1"], layered.productions.dropLast, 2⟩

def layeredDefinitions : Definitions :=
  [("a", .choice (.followed (.once (.name "a")) (.followed (.once (.literal ['b'])) .empty))
    (.one (.followed (.repeated (.characterClass false [('é', 'ü')]) 1 (some 2)) .empty)))]

def layeredBytes : Bytes :=
  [97, 32, 58, 58, 61, 32, 97, 32, 34, 98, 34, 32, 124, 32, 91, 0xC3, 0xA9, 45, 0xC3, 0xBC, 93, 123, 49, 44, 50, 125, 10]

/-- A text with a group, and with a rule whose name the group gets. -/
def sharedName : List Char := "root ::= (\"a\") __generated-0\n__generated-0 ::= \"b\"\n".toList

def sharedNameRules : Rules :=
  ⟨["root", "__generated-0"], [⟨1, [.character (.one 97)]⟩, ⟨0, [.rule 1, .rule 1]⟩, ⟨1, [.character (.one 98)]⟩], 1⟩

private theorem rules_parsed : parseRules layeredText = some (.ok layeredRules) ∧
    parseRules sharedName = some (.ok sharedNameRules) := by
  decide +kernel

theorem spelled_letter {character : Char} {byte : UInt8} {rest : Bytes} (is : Utf8.encode character = [byte])
    (plain : byte ≠ backslash ∧ byte ≠ quote ∧ isLineEnd byte = false) :
    Spelled (.literal [character]) (quote :: byte :: quote :: rest) rest := by
  have first : SpelledCharacter character (Utf8.encode character ++ quote :: rest) (quote :: rest) :=
    .plain (by rw [is]; exact fun same => plain.1 (Option.some.inj same))
  rw [is] at first
  exact .literal (.character (fun other head => Option.some.inj head ▸ plain.2) first .close)

set_option maxRecDepth 4000 in
theorem layered_spelled : SpelledDefinitions layeredDefinitions (Utf8.encodeAll layeredText) := by
  rw [show Utf8.encodeAll layeredText = layeredBytes by decide]
  have named : Spelled (.name "a") (layeredBytes.drop 6) (layeredBytes.drop 7) :=
    @Spelled.name [97] _ (by decide) (List.all_eq_true.mp (by decide)) (by decide)
  have letter : Spelled (.literal ['b']) (layeredBytes.drop 8) (layeredBytes.drop 11) :=
    spelled_letter (by decide) (by decide)
  have left : Spelled (.followed (.once (.name "a")) (.followed (.once (.literal ['b'])) .empty)) (layeredBytes.drop 5)
      (layeredBytes.drop 12) :=
    .followed (by decide) (.once named (by decide)) (.followed (by decide) (.once letter (by decide)) (.empty (by decide)))
  have lower : SpelledCharacter 'é' (layeredBytes.drop 15) (layeredBytes.drop 17) :=
    @SpelledCharacter.plain 'é' _ (by decide)
  have upper : SpelledCharacter 'ü' (layeredBytes.drop 18) (layeredBytes.drop 20) :=
    @SpelledCharacter.plain 'ü' _ (by decide)
  have class_ : Spelled (.characterClass false [('é', 'ü')]) (layeredBytes.drop 14) (layeredBytes.drop 21) :=
    .characterClass (fun _ => by decide) (.range (by decide) lower ⟨rfl, by decide⟩ upper (by decide) .close)
  have bounds : SpelledRepetition 1 (some 2) (layeredBytes.drop 21) (layeredBytes.drop 26) :=
    @SpelledRepetition.between [49] [50] _ 1 2 ⟨by decide, by decide, rfl⟩ ⟨by decide, by decide, rfl⟩
  have right : Spelled (.one (.followed (.repeated (.characterClass false [('é', 'ü')]) 1 (some 2)) .empty))
    (layeredBytes.drop 13)
      (layeredBytes.drop 26) :=
    .one (.followed (by decide) (.repeated class_ bounds ⟨by decide, fun _ => by rintro ⟨⟩; decide⟩)
      (.empty (by decide))) (by decide)
  exact @SpelledDefinitions.rule [97] (layeredBytes.drop 1) _ [] _ _ _ (.done (by decide)) (by decide)
    (List.all_eq_true.mp (by decide)) (by decide) (by decide) (.choice left right) (by decide)
    (.done (.skip (by decide) (.done (by decide))))

theorem parse_preserves_iff_layered : ∃ definitions, SpelledDefinitions definitions (Utf8.encodeAll layeredText) ∧
    Preserves definitions layeredRules layered := by
  obtain ⟨-, preserves⟩ := (parse_preserves_iff layeredText "a").2.2 layeredRules layered rules_parsed.1 (by decide)
  refine ⟨layeredDefinitions, layered_spelled, (preserves _ layered_spelled).mpr ?_⟩
  rw [Definitions.Distinct]
  decide +kernel

def sharedNameGrammar : Grammar :=
  ⟨sharedNameRules.productions ++ [⟨2, [.rule 0]⟩], [[1], [0, 2], [3]], 3⟩

def sharedNameDefinitions : Definitions :=
  [("root", .one (.followed (.once (.group (.one (.followed (.once (.literal ['a'])) .empty))))
      (.followed (.once (.name "__generated-0")) .empty))),
    ("__generated-0", .one (.followed (.once (.literal ['b'])) .empty))]

def sharedNameBytes : Bytes :=
  [114, 111, 111, 116, 32, 58, 58, 61, 32, 40, 34, 97, 34, 41, 32, 95, 95, 103, 101, 110, 101, 114, 97, 116, 101,
    100, 45, 48, 10,
    95, 95, 103, 101, 110, 101, 114, 97, 116, 101, 100, 45, 48, 32, 58, 58, 61, 32, 34, 98, 34, 10]

theorem sharedName_spelled : SpelledDefinitions sharedNameDefinitions (Utf8.encodeAll sharedName) := by
  rw [show Utf8.encodeAll sharedName = sharedNameBytes by decide]
  have letter : Spelled (.literal ['b']) (sharedNameBytes.drop 47) (sharedNameBytes.drop 50) :=
    spelled_letter (by decide) (by decide)
  have made : Spelled (.one (.followed (.once (.literal ['b'])) .empty)) (sharedNameBytes.drop 46)
      (sharedNameBytes.drop 50) :=
    .one (.followed (by decide) (.once letter (by decide)) (.empty (by decide))) (by decide)
  have letter' : Spelled (.literal ['a']) (sharedNameBytes.drop 10) (sharedNameBytes.drop 13) :=
    spelled_letter (by decide) (by decide)
  have group : Spelled (.group (.one (.followed (.once (.literal ['a'])) .empty))) (sharedNameBytes.drop 9)
      (sharedNameBytes.drop 14) :=
    .group (.one (.followed (by decide) (.once letter' (by decide)) (.empty (by decide))) (by decide))
  have named : Spelled (.name "__generated-0") (sharedNameBytes.drop 15) (sharedNameBytes.drop 28) :=
    @Spelled.name (sharedNameBytes.extract 15 28) _ (by decide) (List.all_eq_true.mp (by decide)) (by decide)
  have root : Spelled (.one (.followed (.once (.group (.one (.followed (.once (.literal ['a'])) .empty))))
      (.followed (.once (.name "__generated-0")) .empty))) (sharedNameBytes.drop 8) (sharedNameBytes.drop 28) :=
    .one (.followed (by decide) (.once group (by decide))
      (.followed (by decide) (.once named (by decide)) (.empty (by decide)))) (by decide)
  have second : SpelledDefinitions [("__generated-0", .one (.followed (.once (.literal ['b'])) .empty))]
      (sharedNameBytes.drop 28) :=
    @SpelledDefinitions.rule (sharedNameBytes.extract 29 42) (sharedNameBytes.drop 42) _ [] _ _ _
      (.skip (by decide) (.done (by decide))) (by decide) (List.all_eq_true.mp (by decide)) (by decide) (by decide)
        made (by decide)
      (.done (.skip (by decide) (.done (by decide))))
  exact @SpelledDefinitions.rule (sharedNameBytes.extract 0 4) (sharedNameBytes.drop 4) _ _ _ _ _
    (.done (by decide)) (by decide) (List.all_eq_true.mp (by decide)) (by decide) (by decide) root (by decide) second

/-- The group and the rule of its name share their productions. -/
theorem sharedName_leaks : ∃ rules grammar definitions, parseRules sharedName = some (.ok rules) ∧
    rules.grammar "root" = .ok grammar ∧ SpelledDefinitions definitions (Utf8.encodeAll sharedName) ∧
    ¬Preserves definitions rules grammar := by
  refine ⟨sharedNameRules, sharedNameGrammar, sharedNameDefinitions, rules_parsed.2, by decide, sharedName_spelled, ?_⟩
  intro preserves
  exact absurd (preserves.apart "__generated-0" (by decide)) (by decide)

end Meaning

end Muser.Gbnf
