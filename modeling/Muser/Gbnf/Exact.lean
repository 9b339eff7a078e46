import Muser.Gbnf.Ending
import Muser.Gbnf.Matching
import Muser.Gbnf.Preserved

/-! # Matching the grammar of a text

A parser ends on every text, and the grammar it makes of one is one that a matcher can rely on; so a
matcher of it accepts what the grammar says, however that comes in fragments.
-/

namespace Muser.Gbnf

open Fueled

section Parsed

variable {source : List Char} {root : String} {rules : Rules} {grammar : Grammar}

theorem parseRules_ends (source : List Char) : (parseRules source).isSome := by
  have halts := @Parse.sourceRules_halts ⟨Utf8.encodeAll source, 0, ⟨[], [], 0⟩⟩ ((Utf8.encodeAll source).length + 1)
    (3 * ((Utf8.encodeAll source).length + 1)) ((Utf8.encodeAll source).length + 1) (Nat.zero_le _) (Nat.lt_succ_self _)
    (Nat.le_refl _) (Nat.lt_succ_self _)
  rw [parseRules]
  split
  · next out => exact absurd out halts
  · rfl
  · rfl

theorem parse_ends (source : List Char) (root : String) : (parse source root).isSome := by
  rw [parse, Option.isSome_map]
  exact parseRules_ends source

theorem parse_eq (parsed : parse source root = some (.ok grammar)) :
    ∃ rules, parseRules source = some (.ok rules) ∧ rules.grammar root = .ok grammar := by
  obtain ⟨answer, found, is⟩ := Option.map_eq_some_iff.mp parsed
  cases answer with
  | error failure => cases is
  | ok rules => exact ⟨rules, found, is⟩

theorem SpelledDefinitions.formed {definitions : Definitions} {input : Bytes}
    (spelled : SpelledDefinitions definitions input) :
    ∀ definition ∈ definitions, definition.2.Formed := by
  induction spelled with
  | done => nofun
  | rule _ _ _ _ _ inside _ _ ih => exact List.forall_mem_cons.mpr ⟨inside.formed, ih⟩

/-- A text that is parsed spells definitions, and the rules are theirs. -/
theorem parseRules_spelled (parsed : parseRules source = some (.ok rules)) :
    ∃ definitions, SpelledDefinitions definitions (Utf8.encodeAll source) ∧ rules.Of definitions := by
  rw [parseRules] at parsed
  split at parsed
  · cases parsed
  · cases parsed
  · next parser answers =>
    cases parsed
    exact Parse.sourceRules_answers (Nat.zero_le _) answers

theorem parse_formed (parsed : parse source root = some (.ok grammar)) : grammar.Formed := by
  obtain ⟨rules, found, is⟩ := parse_eq parsed
  obtain ⟨definitions, spelled, of⟩ := parseRules_spelled found
  exact of.formed spelled.formed is

end Parsed

section Matching

variable {grammar : Grammar}

namespace GrammarMatcher

/-- What was fed is accepted where some reading of it is taken. -/
theorem run_iff (formed : grammar.Formed) (order : IterationOrder) (fed : List (IterationOrder × Fragment)) :
    (new grammar order).run fed ≠ none ↔ ∃ word pending, Reads (fed.map Prod.snd) word pending ∧
      grammar.Takes word pending := by
  rcases run_stands formed order fed with ⟨last, run, stands⟩ | ⟨run, none_⟩
  · exact iff_of_true (by rw [run]; nofun) stands.taken
  · refine iff_of_false (fun some_ => some_ run) ?_
    rintro ⟨word, pending, reads, takes⟩
    exact none_ word pending reads takes

variable {fed : List (IterationOrder × Fragment)} {order : IterationOrder}

variable {matcher : GrammarMatcher} {pieces : List Bytes}

theorem run_isAccepting_iff (formed : grammar.Formed) (run : (new grammar order).run fed = some matcher) :
    matcher.isAccepting = true ↔ ∃ word, Reads (fed.map Prod.snd) word [] ∧ grammar.Derives grammar.root word := by
  rcases run_stands formed order fed with ⟨last, found, stands⟩ | ⟨found, -⟩
  · obtain rfl := Option.some.inj (run.symm.trans found)
    exact stands.isAccepting_iff formed
  · exact absurd (found.symm.trans run) nofun

theorem feed_error {matcher after : GrammarMatcher} {fragment : Fragment} {failure : String}
    (result : matcher.feed order fragment = (.error failure, after)) : after = matcher := by
  rcases matcher.feed_cases order fragment with ⟨accepted, found, -⟩ | ⟨⟨_, found⟩, -⟩
  · rw [found] at result
    cases result
  · rw [found] at result
    cases result
    rfl

/-- Bytes are accepted where they are characters, and the start of one more, that begin a word of the root. -/
theorem run_bytes_iff (formed : grammar.Formed) (order : IterationOrder)
    (bytes : fed.map Prod.snd = pieces.map .bytes) :
    (new grammar order).run fed ≠ none ↔ ∃ characters rest, pieces.flatten = Utf8.encodeAll characters ++ rest ∧
      grammar.Takes (characters.map .character) rest := by
  rw [run_iff formed, bytes]
  constructor
  · rintro ⟨word, pending, reads, takes⟩
    obtain ⟨characters, whole, rfl, -⟩ := reads_bytes_iff.mp reads
    exact ⟨characters, pending, whole, takes⟩
  · rintro ⟨characters, rest, whole, takes⟩
    exact ⟨_, rest, reads_bytes_iff.mpr ⟨characters, whole, rfl, takes.begun⟩, takes⟩

theorem run_bytes_isAccepting_iff (formed : grammar.Formed) (bytes : fed.map Prod.snd = pieces.map .bytes)
    (run : (new grammar order).run fed = some matcher) :
    matcher.isAccepting = true ↔
      ∃ characters, pieces.flatten = Utf8.encodeAll characters ∧
        grammar.Derives grammar.root (characters.map .character) := by
  rw [run_isAccepting_iff formed run, bytes]
  constructor
  · rintro ⟨word, reads, derives⟩
    obtain ⟨characters, whole, rfl, -⟩ := reads_bytes_iff.mp reads
    exact ⟨characters, whole.trans (List.append_nil _), derives⟩
  · rintro ⟨characters, whole, derives⟩
    have reads : Reads (pieces.map .bytes) (characters.map .character) [] :=
      reads_bytes_iff.mpr ⟨characters, by rw [whole, List.append_nil], rfl, default, begun_nil default⟩
    exact ⟨_, reads, derives⟩

end GrammarMatcher

/-- A matcher of a parsed grammar is exact. What is fed to it is accepted where some reading of it may
begin a word of the root rule, and it is a word where one that is whole is; bytes are read one way,
however they are cut; a rejected fragment changes nothing. -/
theorem parse_exact {source : List Char} {root : String} (parsed : parse source root = some (.ok grammar)) :
    (∀ order (fed : List (IterationOrder × Fragment)),
      ((GrammarMatcher.new grammar order).run fed ≠ none ↔
        ∃ word pending, Reads (fed.map Prod.snd) word pending ∧ grammar.Takes word pending) ∧
      ∀ matcher, (GrammarMatcher.new grammar order).run fed = some matcher →
        (matcher.isAccepting = true ↔ ∃ word, Reads (fed.map Prod.snd) word [] ∧ grammar.Derives grammar.root word)) ∧
    (∀ order (fed : List (IterationOrder × Fragment)) (pieces : List Bytes), fed.map Prod.snd = pieces.map .bytes →
      ((GrammarMatcher.new grammar order).run fed ≠ none ↔
        ∃ characters rest, pieces.flatten = Utf8.encodeAll characters ++ rest ∧
          grammar.Takes (characters.map .character) rest) ∧
      ∀ matcher, (GrammarMatcher.new grammar order).run fed = some matcher →
        (matcher.isAccepting = true ↔ ∃ characters, pieces.flatten = Utf8.encodeAll characters ∧
          grammar.Derives grammar.root (characters.map .character))) ∧
    (∀ order order' (fed fed' : List (IterationOrder × Fragment)) (pieces pieces' : List Bytes),
      fed.map Prod.snd = pieces.map .bytes → fed'.map Prod.snd = pieces'.map .bytes → pieces.flatten = pieces'.flatten →
      ((GrammarMatcher.new grammar order).run fed ≠ none ↔ (GrammarMatcher.new grammar order').run fed' ≠ none)) ∧
    (∀ (matcher after : GrammarMatcher) order fragment failure,
      matcher.feed order fragment = (.error failure, after) → after = matcher) ∧
    ∀ (matcher : GrammarMatcher) order token bytes, (matcher.acceptToken order token bytes).1 = .ok () ↔
      (∃ branch ∈ matcher.branches, branch.pendingUtf8 = [] ∧ ∃ item ∈ branch.frontier, ∃ terminal,
        matcher.grammar.next item = some (.token terminal) ∧ terminal.matches token bytes = true) ∨
      (bytes ≠ [] ∧ (matcher.acceptBytes order bytes).1 = .ok ()) := by
  have formed := parse_formed parsed
  refine ⟨fun order fed => ⟨GrammarMatcher.run_iff formed order fed, fun _ => GrammarMatcher.run_isAccepting_iff formed⟩,
    fun order fed pieces bytes => ⟨GrammarMatcher.run_bytes_iff formed order bytes,
      fun _ => GrammarMatcher.run_bytes_isAccepting_iff formed bytes⟩, ?_,
    fun _ _ _ _ _ => GrammarMatcher.feed_error, GrammarMatcher.acceptToken_iff⟩
  intro order order' fed fed' pieces pieces' bytes bytes' same
  rw [GrammarMatcher.run_bytes_iff formed order bytes, GrammarMatcher.run_bytes_iff formed order' bytes', same]

/-- The sets of a closure, visited in an order that is not said. -/
noncomputable def IterationOrder.any : IterationOrder :=
  ⟨fun _ _ items => items.toList, fun _ _ items => items.nodup_toList, fun _ _ _ _ => Finset.mem_toList⟩

def accented : CharSet := ⟨false, [(0xE9, 0xFC)]⟩

/-- A left recursive rule, and a class of accented letters that is taken once or twice. -/
def layeredText : List Char := "a ::= a \"b\" | [é-ü]\x7b1,2\x7d\n".toList

def layered : Grammar where
  productions := [⟨2, []⟩, ⟨2, [.character accented]⟩, ⟨1, [.character accented, .rule 2]⟩,
    ⟨0, [.rule 0, .character (.one 98)]⟩, ⟨0, [.rule 1]⟩, ⟨3, [.rule 0]⟩]
  byLhs := [[3, 4], [2], [0, 1], [5]]
  startProduction := 5

example : (parse "a ::= b\n".toList "a").any (·.isOk) = false := by decide +kernel

theorem layered_derives : layered.Derives layered.root [.character 'é', .character 'b'] := by
  refine ⟨[.character accented, .character (.one 98)], ?_, .cons rfl (.cons rfl .nil)⟩
  have uses : ∀ rule ∈ layered.contextFree.rules, ∀ before behind, layered.contextFree.Derives
      (before ++ [.nonterminal rule.input] ++ behind) (before ++ rule.output ++ behind) := fun rule mem before behind =>
    ContextFreeGrammar.Produces.single ⟨rule, mem, ContextFreeRule.rewrites_of_exists_parts rule before behind⟩
  have left := uses ⟨0, [.nonterminal 0, .terminal (.character (.one 98))]⟩ (by decide) [] []
  have right := uses ⟨0, [.nonterminal 1]⟩ (by decide) [] [.terminal (.character (.one 98))]
  have once := uses ⟨1, [.terminal (.character accented), .nonterminal 2]⟩ (by decide) [] [.terminal (.character (.one 98))]
  have last := uses ⟨2, []⟩ (by decide) [.terminal (.character accented)] [.terminal (.character (.one 98))]
  exact ((left.trans right).trans once).trans last

/-- The letters `é` and `b`, of which the first is cut in two. -/
theorem parse_exact_layered : parse layeredText "a" = some (.ok layered) ∧
    ∃ matcher, (GrammarMatcher.new layered .any).run [(.any, .bytes [0xC3]), (.any, .bytes [0xA9, 98])] = some matcher ∧
      matcher.isAccepting = true := by
  have parsed : parse layeredText "a" = some (.ok layered) := by decide +kernel
  have bytes : [[0xC3], [0xA9, 98]].flatten = Utf8.encodeAll ['é', 'b'] := by decide
  obtain ⟨runs, accepts⟩ := (parse_exact parsed).2.1 .any [(.any, .bytes [0xC3]), (.any, .bytes [0xA9, 98])] [[0xC3],
    [0xA9, 98]] rfl
  obtain ⟨terminals, derived, read⟩ := layered_derives
  have taken : layered.Takes (['é', 'b'].map .character) [] := .inl ⟨rfl, terminals, [], by simpa using derived, read⟩
  obtain ⟨matcher, ran⟩ := Option.ne_none_iff_exists'.mp (runs.mpr ⟨['é', 'b'], [], bytes, taken⟩)
  exact ⟨parsed, matcher, ran, (accepts matcher ran).mpr ⟨['é', 'b'], bytes, layered_derives⟩⟩

end Matching

end Muser.Gbnf
