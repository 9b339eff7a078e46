import Muser.Gbnf.Lexing
import Muser.Gbnf.Numbering

/-! # What the parser makes of a text

Where the parser answers, the text spells rules, and the parser's rules are those of the spelling: its
productions by name, numbered. The parser always answers or fails; no text is too long for its steps.
-/

namespace Muser.Gbnf

open Fueled

/-- The parser has read a phrase and added its rules. -/
structure Parsed {kind : Kind} (phrase : Phrase kind) (parser after : Parser) : Prop where
  spelled : Spelled phrase parser.tail after.tail
  source : after.source = parser.source
  within : parser.position ≤ parser.source.length → after.position ≤ after.source.length
  lowers : Lowers parser.rules after.rules (phrase.productions parser.rules.generated) phrase.makes.length phrase.refers

section Parsing

variable {parser middle after : Parser} {steps depth : ℕ} {symbols : List Symbol} {rest : Bytes}

theorem Parsed.of_leaves {atom : Phrase .atom} (leaves : parser.Leaves rest after) (spelled : Spelled atom parser.tail rest)
    (makes : atom.makes = []) (refers : atom.refers = []) (productions : ∀ counter, atom.productions counter = []) :
    Parsed atom parser after := by
  refine ⟨leaves.tail ▸ spelled, leaves.source, leaves.within, ?_⟩
  rw [leaves.rules, makes, refers, productions]
  exact Lowers.refl _

/-- The symbols of a phrase are its body's, numbered. -/
def Numbered (references : List Reference) (symbols : List Symbol) (parser : Parser) : Prop :=
  symbols = references.map (Reference.number parser.rules.names) ∧ Knows parser.rules.names references

theorem Numbered.mono {references : List Reference} {added : List NamedProduction} {made : ℕ} {met : List String}
    (numbered : Numbered references symbols middle) (lowers : Lowers middle.rules after.rules added made met) :
    Numbered references symbols after :=
  ⟨numbered.1.trans (number_of_grows numbered.2 lowers.grows).symm, numbered.2.mono lowers.grows⟩

theorem numbered_rule {name : String} {number : ℕ} (numbers : parser.rules.Numbers name number) :
    Numbered [.rule name] [.rule number] parser := by
  refine ⟨?_, knows_rule numbers.1⟩
  rw [numbers.2]
  rfl

namespace Parse

theorem onRules_answers {α : Type} {change : Rules → α × Rules} {value : α}
    (answers : (onRules change).Answers parser value after) :
    value = (change parser.rules).1 ∧ after.rules = (change parser.rules).2 ∧ after.source = parser.source ∧
      after.position = parser.position ∧ after.tail = parser.tail := by
  rw [onRules, answers_step, Prod.mk.injEq] at answers
  obtain ⟨rfl, rfl⟩ := answers
  exact ⟨rfl, rfl, rfl, rfl, rfl⟩

theorem simpleAtom_answers (answers : (simpleAtom steps).Answers parser symbols after) :
    ∃ atom : Phrase .atom, Parsed atom parser after ∧ Numbered (atom.body parser.rules.generated) symbols after := by
  rw [simpleAtom, answers_bind] at answers
  obtain ⟨next, _, looked, answers⟩ := answers
  rw [peek_answers] at looked
  obtain ⟨rfl, rfl⟩ := looked
  cases whole : parser.tail with
  | nil => simp [whole] at answers
  | cons byte input =>
    simp only [whole, List.head?_cons, answers_ite, answers_bind, answers_pure] at answers
    rcases answers with ⟨rfl, answers⟩ | ⟨-,
      ⟨rfl, chars, _, answers, rfl, rfl⟩ | ⟨-, ⟨rfl, _, _, go, rfl, rfl⟩ | ⟨-, ⟨-, terminal, _, answers, rfl, rfl⟩ |
      ⟨-, value, named, answers, number, _, met, rfl, rfl⟩⟩⟩⟩
    · obtain ⟨characters, rest, spelled, rfl, leaves⟩ := literal_answers answers whole
      refine ⟨.literal characters, .of_leaves leaves spelled rfl rfl fun _ => rfl, ?_, ?_⟩
      · rw [Phrase.body, List.map_map]
        rfl
      · simp [Phrase.body, Knows, mem_mentions]
    · obtain ⟨inverted, ranges, rest, spelled, rfl, leaves⟩ := characterClass_answers answers whole
      exact ⟨.characterClass inverted ranges, .of_leaves leaves spelled rfl rfl fun _ => rfl, rfl, nofun⟩
    · exact ⟨.any, .of_leaves (advance_answers go whole) (whole ▸ .any) rfl rfl fun _ => rfl, rfl, nofun⟩
    · obtain ⟨rest, spelled, leaves⟩ := tokenTerminal_answers answers
      exact ⟨.token terminal, .of_leaves leaves (.token spelled) rfl rfl fun _ => rfl, rfl, nofun⟩
    · obtain ⟨letters, rest, is, some_, each, last, rfl, leaves⟩ := name_answers answers
      obtain ⟨rfl, rules, source, position, tail⟩ := onRules_answers met
      obtain ⟨lowers, numbers⟩ := named.rules.ruleId_lowers (asciiText letters)
      rw [← rules] at lowers numbers
      refine ⟨.name (asciiText letters), ⟨?_, source.trans leaves.source, fun within => ?_, leaves.rules ▸ lowers⟩,
        numbered_rule numbers⟩
      · rw [is, tail, leaves.tail]
        exact .name some_ each last
      · rw [source, position]
        exact leaves.within within

theorem repeatRule_answers {minimum number : ℕ} {maximum : Option ℕ} {references : List Reference}
    (answers : (repeatRule symbols minimum maximum).Answers parser number after)
    (numbered : Numbered references symbols parser) :
    InBounds minimum maximum ∧ after.source = parser.source ∧ after.position = parser.position ∧ after.tail = parser.tail ∧
      Lowers parser.rules after.rules (repeatProductions references minimum maximum parser.rules.generated)
        (repeatCount minimum maximum) [] ∧
      Numbered [.rule (generatedName parser.rules.generated)] [.rule number] after := by
  rw [repeatRule, answers_bind] at answers
  obtain ⟨result, _, looked, answers⟩ := answers
  rw [answers_read] at looked
  obtain ⟨found, rfl⟩ := looked
  cases result with
  | error failure => simp at answers
  | ok made =>
    obtain ⟨rule, rules⟩ := made
    simp only [answers_bind, answers_modify, answers_pure] at answers
    obtain ⟨_, _, rfl, rfl, rfl⟩ := answers
    rw [numbered.1] at found
    obtain ⟨bounds, lowers, numbers⟩ := Rules.repeatRule_lowers numbered.2 found
    exact ⟨bounds, rfl, rfl, rfl, lowers, numbered_rule numbers⟩

/-- What the parser makes of an atom and of the repetition behind it. -/
theorem repeated_answers {atom : Phrase .atom} (parsed : Parsed atom parser middle)
    (within : parser.position ≤ parser.source.length)
    {body : List Symbol} (numbered : Numbered (atom.body parser.rules.generated) body middle)
    (answers : (repeated body).Answers middle symbols after) :
    ∃ item : Phrase .item, Parsed item parser after ∧ Numbered (item.body parser.rules.generated) symbols after := by
  rw [repeated, answers_bind] at answers
  obtain ⟨_, skipped, skips, answers⟩ := answers
  rw [answers_bind] at answers
  obtain ⟨found, looked, repeats, answers⟩ := answers
  have leaves := skipHorizontal_answers skips
  have within' := leaves.within (parsed.within within)
  obtain ⟨⟨text, last, whole, plain⟩, -⟩ := parsed.spelled.atom
  have behind : ∃ last, before.Answers skipped (some last) skipped ∧ last ≠ ascii '}' := by
    have source := leaves.source.trans parsed.source
    obtain ⟨blanks, rest_, each⟩ : ∃ blanks, middle.tail = blanks ++ skipped.tail ∧ ∀ byte ∈ blanks,
      isBlank byte = true := by
      rw [leaves.tail]
      exact ⟨_, (List.takeWhile_append_dropWhile ..).symm, mem_takeWhile_imp⟩
    rw [rest_] at whole
    rcases List.eq_nil_or_concat blanks with rfl | ⟨front, blank, rfl⟩
    · exact ⟨last, Parser.before_eq within source within' whole, plain⟩
    · have whole' : parser.tail = (text ++ [last] ++ front) ++ [blank] ++ skipped.tail := by
        rw [whole, List.concat_eq_append]
        simp only [List.append_assoc]
      refine ⟨blank, Parser.before_eq within source within' whole', ?_⟩
      rintro rfl
      have is := each (ascii '}') (by simp)
      exact absurd is (by decide)
  obtain ⟨sign, behind, plain⟩ := behind
  rcases repetition_answers repeats behind plain within' with ⟨rfl, none_, rfl⟩ | ⟨minimum, maximum, rest, rfl,
    spelled, goes⟩
  · simp only [answers_pure] at answers
    obtain ⟨rfl, rfl⟩ := answers
    refine ⟨.once atom, ⟨?_, leaves.source.trans parsed.source, fun _ => within', ?_⟩, ?_⟩
    · rw [leaves.tail] at none_ ⊢
      exact .once parsed.spelled none_
    · rw [leaves.rules]
      exact parsed.lowers
    · rw [Numbered, leaves.rules]
      exact numbered
  · simp only [answers_bind, answers_pure] at answers
    obtain ⟨number, _, makes, rfl, rfl⟩ := answers
    have same := (leaves.trans goes)
    have numbered' : Numbered (atom.body parser.rules.generated) body looked := by
      rw [Numbered, same.rules]
      exact numbered
    obtain ⟨bounds, source, position, tail, lowers, rule⟩ := repeatRule_answers makes numbered'
    rw [same.rules] at lowers rule
    refine ⟨.repeated atom minimum maximum, ⟨?_, ?_, fun _ => ?_, ?_⟩, ?_⟩
    · rw [tail, goes.tail]
      rw [leaves.tail] at spelled
      exact .repeated parsed.spelled spelled bounds
    · rw [source, same.source, parsed.source]
    · rw [source, position]
      exact same.within (parsed.within within)
    · have all := parsed.lowers.trans lowers
      rw [Phrase.makes_repeated, Phrase.productions, Phrase.refers, ← parsed.lowers.generated, ← List.append_nil atom.refers]
      exact all
    · rw [Phrase.body, ← parsed.lowers.generated]
      exact rule

/-- What ends a sequence for the parser does so in the notation. -/
theorem ends_of_closing {next closing : Option UInt8} (known : closing = none ∨ closing = some (ascii ')'))
    (ends : next = none ∨ next = some (ascii '|') ∨ next.any isLineEnd = true ∨ next = closing ∨ next = some (ascii '#')) :
    next.all endsSequence = true := by
  rcases ends with rfl | rfl | line | rfl | rfl
  · rfl
  · rfl
  · cases next with
    | none => rfl
    | some byte => simp [endsSequence, show isLineEnd byte = true from line]
  · rcases known with rfl | rfl <;> rfl
  · rfl

variable (steps) in
/-- What the parser makes of alternatives, of a sequence and of an item. -/
theorem phrase_answers (depth : ℕ) :
    (∀ closing parser after alternatives, closing = none ∨ closing = some (ascii ')') →
      parser.position ≤ parser.source.length →
      (expression steps depth closing).Answers parser alternatives after →
      ∃ phrase : Phrase .alternatives, Parsed phrase parser after ∧
        alternatives = (phrase.bodies parser.rules.generated).map (List.map (Reference.number after.rules.names)) ∧
        ∀ body ∈ phrase.bodies parser.rules.generated, Knows after.rules.names body) ∧
    (∀ closing parser after symbols, closing = none ∨ closing = some (ascii ')') → parser.position ≤ parser.source.length →
      (sequence steps depth closing).Answers parser symbols after →
      ∃ phrase : Phrase .sequence, Parsed phrase parser after ∧
        Numbered (phrase.body parser.rules.generated) symbols after) ∧
    (∀ parser after symbols, parser.position ≤ parser.source.length → (atom steps depth).Answers parser symbols after →
      ∃ phrase : Phrase .item, Parsed phrase parser after ∧
        Numbered (phrase.body parser.rules.generated) symbols after) := by
  induction depth with
  | zero => simp [expression, sequence, atom]
  | succ depth ih =>
    obtain ⟨alternatives_, sequences, atoms⟩ := ih
    refine ⟨?_, ?_, ?_⟩
    · intro closing parser after alternatives known within answers
      simp only [expression, answers_bind, peek_answers, answers_ite, answers_pure] at answers
      obtain ⟨first, second, reads, _, third, skips, _, _, ⟨rfl, rfl⟩, answers⟩ := answers
      obtain ⟨phrase, parsed, numbered⟩ := sequences closing parser second first known within reads
      have leaves := skipHorizontal_answers skips
      rw [parsed.spelled.sequence] at leaves
      have within' := leaves.within (parsed.within within)
      rcases answers with ⟨bar, _, fourth, go, others, _, reads', rfl, rfl⟩ | ⟨last, rfl, rfl⟩
      · obtain ⟨input, is⟩ := List.head?_eq_some_iff.mp bar
        have goes := leaves.trans (advance_answers go is)
        have starts := goes.within (parsed.within within)
        obtain ⟨behind, parsed', rfl, knows⟩ := alternatives_ closing fourth _ others known starts reads'
        have spelled := parsed.spelled
        rw [← leaves.tail, is, ← goes.tail] at spelled
        have lowers := parsed'.lowers
        rw [goes.rules, parsed.lowers.generated] at lowers
        have all := parsed.lowers.trans lowers
        have first_ := numbered.mono lowers
        refine ⟨.choice phrase behind, ⟨.choice spelled parsed'.spelled, ?_, fun _ => parsed'.within starts, ?_⟩, ?_, ?_⟩
        · rw [parsed'.source, goes.source, parsed.source]
        · rw [Phrase.makes, List.length_append]
          exact all
        · rw [goes.rules, parsed.lowers.generated, Phrase.bodies, List.map_cons, first_.1]
        · rw [goes.rules, parsed.lowers.generated] at knows
          rw [Phrase.bodies]
          exact List.forall_mem_cons.mpr ⟨first_.2, knows⟩
      · refine ⟨.one phrase, ⟨.one ?_ ?_, leaves.source.trans parsed.source, fun _ => within', ?_⟩, ?_, ?_⟩
        · rw [leaves.tail]
          exact parsed.spelled
        · exact last
        · rw [leaves.rules]
          exact parsed.lowers
        · rw [leaves.rules, Phrase.bodies, List.map_singleton, numbered.1]
        · rw [leaves.rules, Phrase.bodies]
          exact List.forall_mem_singleton.mpr numbered.2
    · intro closing parser after symbols known within answers
      simp only [sequence, answers_bind, peek_answers, answers_ite, answers_pure] at answers
      obtain ⟨_, second, skips, _, _, ⟨rfl, rfl⟩, answers⟩ := answers
      have leaves := skipHorizontal_answers skips
      rcases answers with ⟨ends, rfl, rfl⟩ | ⟨goes, atom, third, reads, others, _, reads', rfl, rfl⟩
      · refine ⟨.empty, ⟨?_, leaves.source, leaves.within, ?_⟩, rfl, knows_nil⟩
        · rw [leaves.tail] at ends ⊢
          exact .empty (ends_of_closing known ends)
        · rw [leaves.rules]
          exact Lowers.refl _
      · obtain ⟨item, parsed, numbered⟩ := atoms second third atom (leaves.within within) reads
        have starts := parsed.within (leaves.within within)
        obtain ⟨behind, parsed', numbered'⟩ := sequences closing third _ others known starts reads'
        have spelled := parsed.spelled
        rw [leaves.tail] at spelled
        have lowers := parsed.lowers
        rw [leaves.rules] at lowers numbered
        have lowers' := parsed'.lowers
        rw [lowers.generated] at lowers' numbered'
        have first_ := numbered.mono lowers'
        refine ⟨.followed item behind,
          ⟨.followed spelled.item.2 spelled parsed'.spelled, ?_, fun _ => parsed'.within starts, ?_⟩, ?_, ?_⟩
        · rw [parsed'.source, parsed.source, leaves.source]
        · rw [Phrase.makes, List.length_append]
          exact lowers.trans lowers'
        · rw [Phrase.body, List.map_append, ← first_.1, ← numbered'.1]
        · rw [Phrase.body]
          exact knows_append.mpr ⟨first_.2, numbered'.2⟩
    · intro parser after symbols within answers
      simp only [atom, answers_bind, peek_answers, answers_ite, answers_pure] at answers
      obtain ⟨_, _, ⟨rfl, rfl⟩, ⟨opens, _, second, go, alternatives, third, reads, _, fourth, closes, number, fifth,
        makes, _, _, ⟨rfl, rfl⟩, more⟩ |
        ⟨-, body, second, reads, more⟩⟩ := answers
      · obtain ⟨input, is⟩ := List.head?_eq_some_iff.mp opens
        have leaves := advance_answers go is
        have starts := leaves.within within
        obtain ⟨phrase, parsed, rfl, knows⟩ := alternatives_ _ second third alternatives (.inr rfl) starts reads
        obtain ⟨rest, closed, leaves'⟩ := expect_answers closes
        obtain ⟨rfl, rules, source, position, tail⟩ := onRules_answers makes
        have spelled := parsed.spelled
        rw [leaves.tail, closed] at spelled
        have lowers := parsed.lowers
        obtain ⟨lowers', numbers⟩ := Rules.generatedRule_lowers knows
        rw [leaves'.rules] at rules more
        rw [← rules] at lowers' numbers
        have all := lowers.trans lowers'
        rw [lowers.generated] at lowers' numbers
        have group : Parsed (.group phrase) parser fifth := by
          refine ⟨?_, ?_, fun _ => ?_, ?_⟩
          · rw [is, tail, leaves'.tail]
            exact .group spelled
          · rw [source, leaves'.source, parsed.source, leaves.source]
          · rw [source, position]
            exact leaves'.within (parsed.within starts)
          · rw [lowers.generated, leaves.rules] at all
            rw [Phrase.makes, List.length_append, Phrase.productions, Phrase.refers, ← List.append_nil phrase.refers]
            exact all
        refine repeated_answers group within ?_ more
        rw [leaves.rules] at numbers
        exact numbered_rule numbers
      · obtain ⟨phrase, parsed, numbered⟩ := simpleAtom_answers reads
        exact repeated_answers parsed within numbered more

theorem layout_of_dropWhile {input : Bytes}
    (more : Layout (input.dropWhile fun byte => isBlank byte || (true && isLineEnd byte)) rest) : Layout input rest := by
  induction input with
  | nil => exact more
  | cons byte input ih =>
    rw [List.dropWhile_cons] at more
    split at more
    · next layout => exact .skip layout (ih more)
    · exact more

theorem skipLayout_answers {left : Bool} (answers : (skipLayout true steps).Answers parser left after) :
    ∃ rest, Layout parser.tail rest ∧ parser.Leaves rest after ∧ (left = true ↔ rest ≠ []) := by
  induction steps generalizing parser with
  | zero => simp [skipLayout] at answers
  | succ steps ih =>
    simp only [skipLayout, answers_bind, peek_answers, answers_ite, answers_read] at answers
    obtain ⟨_, second, skips, _, _, ⟨rfl, rfl⟩, ⟨comment, _, third, skips', answers⟩ | ⟨plain, rfl, rfl⟩⟩ := answers
    · have leaves := skipWhile_answers skips
      have leaves' := leaves.trans (skipWhile_answers skips')
      obtain ⟨rest, layout, goes, left_⟩ := ih answers
      refine ⟨rest, layout_of_dropWhile ?_, leaves'.trans goes, left_⟩
      rw [← leaves.tail]
      obtain ⟨behind, is⟩ := List.head?_eq_some_iff.mp comment
      rw [is]
      apply Layout.comment
      rw [← is, skipComment, if_pos comment, ← (skipWhile_answers skips').tail]
      exact layout
    · have leaves := skipWhile_answers skips
      refine ⟨second.tail, layout_of_dropWhile ?_, leaves.tail ▸ leaves, ?_⟩
      · rw [← leaves.tail]
        apply Layout.done
        have none_ := head?_dropWhile_any (fun byte => isBlank byte || (true && isLineEnd byte)) parser.tail
        rw [← leaves.tail] at none_
        cases ahead : second.tail.head? with
        | none => rfl
        | some byte =>
          rw [ahead] at none_ plain
          rw [Option.some.injEq] at plain
          simpa [plain] using none_
      · rw [decide_eq_true_eq, Parser.tail, ← List.length_pos_iff, List.length_drop, Nat.sub_pos_iff_lt]

theorem consumeRuleEnd_answers {nothing : Unit} (answers : consumeRuleEnd.Answers parser nothing after) :
    parser.Leaves (skipComment (skipBlanks parser.tail)) after ∧
      (skipComment (skipBlanks parser.tail)).head?.all isLineEnd = true := by
  simp only [consumeRuleEnd, answers_bind, peek_answers, answers_ite, answers_fail, answers_pure, and_false,
    false_or] at answers
  obtain ⟨_, second, skips, _, _, ⟨rfl, rfl⟩, answers⟩ := answers
  have leaves := skipHorizontal_answers skips
  have ends : ∀ {next : Option UInt8}, ¬next.any (fun byte => !isLineEnd byte) = true → next.all isLineEnd = true := by
    intro next none_
    cases next with
    | none => rfl
    | some byte => simpa using none_
  rw [skipComment, ← leaves.tail]
  rcases answers with ⟨comment, _, third, skips', _, _, ⟨rfl, rfl⟩, last, -, rfl⟩ | ⟨plain, _, _, ⟨rfl, rfl⟩, last, -, rfl⟩
  · have leaves' := skipWhile_answers skips'
    rw [if_pos comment]
    exact ⟨leaves.trans leaves', leaves'.tail ▸ ends last⟩
  · rw [if_neg plain]
    exact ⟨leaves.tail ▸ leaves, ends last⟩

/-- What the parser makes of a text's rules. -/
theorem sourceRules_answers {count : ℕ} {nothing : Unit} (within : parser.position ≤ parser.source.length)
    (answers : (sourceRules steps depth count).Answers parser nothing after) :
    ∃ definitions, SpelledDefinitions definitions parser.tail ∧
      Lowers parser.rules after.rules (Definitions.productions parser.rules.generated definitions)
        (Definitions.makes definitions).length (Definitions.writes definitions) := by
  induction count generalizing parser with
  | zero => simp [sourceRules] at answers
  | succ count ih =>
    simp only [sourceRules, answers_bind, answers_ite, answers_pure] at answers
    obtain ⟨left, second, layout, answers⟩ := answers
    obtain ⟨rest, spelled, leaves, left_⟩ := skipLayout_answers layout
    rcases answers with ⟨more, name, third, named, lhs, fourth, numbers, _, fifth, skips, _, sixth, defines,
      alternatives, seventh,
      reads, _, eighth, pushes, _, ninth, ends, others⟩ | ⟨done, -, rfl⟩
    · obtain ⟨letters, middle, is, some_, each, last, rfl, leaves'⟩ := name_answers named
      have first := leaves.trans leaves'
      obtain ⟨rfl, rules, source, position, tail⟩ := onRules_answers numbers
      have leaves'' := skipHorizontal_answers skips
      obtain ⟨body, defined, goes⟩ := expect_answers defines
      have inside : sixth.position ≤ sixth.source.length := by
        refine goes.within (leaves''.within ?_)
        rw [source, position]
        exact first.within within
      obtain ⟨phrase, parsed, rfl, knows⟩ :=
        (phrase_answers steps depth).1 none sixth seventh alternatives (.inl rfl) inside reads
      obtain ⟨-, rules', source', position', tail'⟩ := onRules_answers pushes
      obtain ⟨ended, line⟩ := consumeRuleEnd_answers ends
      have within' : ninth.position ≤ ninth.source.length := by
        refine ended.within ?_
        rw [source', position']
        exact parsed.within inside
      obtain ⟨definitions, spelled', lowers'⟩ := ih within' others
      have met := third.rules.ruleId_lowers (asciiText letters)
      rw [← rules, first.rules] at met
      have sixth_ : sixth.rules = fourth.rules := goes.rules.trans leaves''.rules
      have start : sixth.rules.generated = parser.rules.generated := congrArg Rules.generated sixth_ |>.trans met.1.generated
      have lowers := parsed.lowers
      rw [start, sixth_] at lowers
      rw [start] at knows rules'
      have pushed := (met.1.trans lowers).pushAll (met.2.mono lowers) knows
      rw [first.rules] at rules'
      dsimp only at rules'
      rw [← rules', ← ended.rules] at pushed
      have next := pushed.generated
      rw [next] at lowers'
      have all := pushed.trans lowers'
      refine ⟨(asciiText letters, phrase) :: definitions, ?_, ?_⟩
      · have body_ := parsed.spelled
        rw [goes.tail] at body_
        rw [tail, leaves'.tail] at leaves''
        rw [leaves''.tail] at defined
        rw [tail'] at line ended
        refine .rule (is ▸ leaves.tail ▸ spelled) some_ each last defined body_ line ?_
        rw [← ended.tail]
        exact spelled'
      · rw [Definitions.productions, Definitions.makes, List.flatMap_cons, List.length_append, Definitions.writes,
          List.flatMap_cons]
        simp only [Nat.zero_add, List.nil_append, List.singleton_append] at all
        exact all
    · obtain rfl : rest = [] := not_not.mp fun some_ => done (left_.mpr some_)
      refine ⟨[], .done spelled, ?_⟩
      rw [leaves.rules]
      exact Lowers.refl _

end Parse

end Parsing

end Muser.Gbnf
