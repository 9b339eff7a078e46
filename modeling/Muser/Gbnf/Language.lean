import Muser.Lib.Earley
import Muser.Gbnf.Matcher
import Mathlib.Data.List.GetD

/-! # The language of a grammar

A table of productions is a context-free grammar over its terminals. A terminal reads a character of
its class, or a token it matches, so that the words of a grammar are made of characters and tokens.
-/

namespace Muser.Gbnf

open ContextFree Earley

inductive Terminal where
  | character (chars : CharSet)
  | token (terminal : TokenTerminal)
deriving DecidableEq

/-- What is read: a character, or a token with its bytes. -/
inductive Input where
  | character (character : Char)
  | token (token : UInt32) (bytes : Bytes)
deriving DecidableEq

def Terminal.Reads : Terminal → Input → Prop
  | .character chars, .character read => chars.matches read.toNat = true
  | .token expected, .token read bytes => expected.matches read bytes = true
  | _, _ => False

def Symbol.toCf : Symbol → CfSymbol Terminal ℕ
  | .rule other => .nonterminal other
  | .character chars => .terminal (.character chars)
  | .token expected => .terminal (.token expected)

def Production.toRule (production : Production) : ContextFreeRule Terminal ℕ :=
  ⟨production.lhs, production.rhs.map Symbol.toCf⟩

/-- The rule that the start production stands for. -/
def Grammar.root (grammar : Grammar) : ℕ :=
  match (grammar.production grammar.startProduction).rhs with
  | [.rule root] => root
  | _ => 0

abbrev Grammar.contextFree (grammar : Grammar) : ContextFreeGrammar Terminal where
  NT := ℕ
  initial := grammar.root
  rules := (grammar.productions.map Production.toRule).toFinset

/-- A word of a rule. -/
def Grammar.Derives (grammar : Grammar) (rule : ℕ) (word : List Input) : Prop :=
  ∃ terminals, grammar.contextFree.Derives [.nonterminal rule] (terminals.map .terminal) ∧
    List.Forall₂ Terminal.Reads terminals word

/-- A word that the first terminals of a sentential form of a rule read. -/
def Grammar.Starts (grammar : Grammar) (rule : ℕ) (word : List Input) : Prop :=
  ∃ terminals rest, grammar.contextFree.Derives [.nonterminal rule] (terminals.map .terminal ++ rest) ∧
    List.Forall₂ Terminal.Reads terminals word

/-- What a matcher relies on: its tables agree, only the start production starts the root, and no
range is empty. -/
structure Grammar.Formed (grammar : Grammar) : Prop where
  start : grammar.startProduction < grammar.productions.length
  starts : (grammar.production grammar.startProduction).rhs = [.rule grammar.root]
  single : ∀ production ∈ grammar.productions, production.lhs = (grammar.production grammar.startProduction).lhs →
    production = grammar.production grammar.startProduction
  byLhs : ∀ rule index, index ∈ grammar.byLhs.getD rule [] ↔
    index < grammar.productions.length ∧ (grammar.production index).lhs = rule
  ordered : ∀ production ∈ grammar.productions, ∀ chars, .character chars ∈ production.rhs →
    ∀ range ∈ chars.ranges, range.1 ≤ range.2

/-- The productions by their numbers, as rules. -/
def Grammar.rules (grammar : Grammar) (index : ℕ) : Option (ContextFreeRule Terminal ℕ) :=
  grammar.productions[index]?.map Production.toRule

/-- The items of a word that are charted at a position. -/
def Grammar.Charted (grammar : Grammar) (word : List Input) (position : ℕ) (item : Item) : Prop :=
  Earley.Charted (g := grammar.contextFree) grammar.rules Terminal.Reads word grammar.startProduction position
    item.production item.dot item.origin

section Rules

variable {grammar : Grammar} {word more : List Input} {rule position index : ℕ} {item : Item}

theorem Grammar.derives_iff : grammar.Derives rule word ↔
    Yields grammar.contextFree Terminal.Reads [.nonterminal rule] word := yields_iff_derives.symm

theorem Grammar.starts_iff : grammar.Starts rule word ↔
    Begins grammar.contextFree Terminal.Reads [.nonterminal rule] word := begins_iff_derives.symm

theorem Grammar.spells (grammar : Grammar) (rule : ContextFreeRule Terminal ℕ) :
    rule ∈ grammar.contextFree.rules ↔ ∃ index, grammar.rules index = some rule := by
  rw [List.mem_toFinset, List.mem_map]
  constructor
  · rintro ⟨production, member, rfl⟩
    obtain ⟨index, inside, rfl⟩ := List.getElem_of_mem member
    exact ⟨index, by rw [Grammar.rules, List.getElem?_eq_getElem inside, Option.map_some]⟩
  · rintro ⟨index, known⟩
    obtain ⟨production, found, rfl⟩ := Option.map_eq_some_iff.mp known
    exact ⟨production, List.mem_of_getElem? found, rfl⟩

theorem Grammar.rules_eq (inside : index < grammar.productions.length) :
    grammar.rules index = some (grammar.production index).toRule := by
  rw [Grammar.rules, List.getElem?_eq_getElem inside, Grammar.production, List.getD_eq_getElem _ _ inside, Option.map_some]

theorem Grammar.rules_eq_some {known : ContextFreeRule Terminal ℕ} (is : grammar.rules index = some known) :
    index < grammar.productions.length ∧ known = (grammar.production index).toRule := by
  obtain ⟨production, found, rfl⟩ := Option.map_eq_some_iff.mp is
  obtain ⟨inside, rfl⟩ := List.getElem?_eq_some_iff.mp found
  exact ⟨inside, by rw [Grammar.production, List.getD_eq_getElem _ _ inside]⟩

/-- The symbol behind an item's dot, as a symbol of the context-free grammar. -/
theorem Grammar.next_toCf (grammar : Grammar) (item : Item) :
    (grammar.production item.production).toRule.output[item.dot]? = (grammar.next item).map Symbol.toCf := by
  rw [Production.toRule, List.getElem?_map, Grammar.next]

namespace Grammar.Formed

theorem begins (formed : grammar.Formed) :
    grammar.rules grammar.startProduction = some (grammar.production grammar.startProduction).toRule :=
  Grammar.rules_eq formed.start

theorem starts_root (formed : grammar.Formed) :
    (grammar.production grammar.startProduction).toRule.output = [.nonterminal grammar.root] := by
  rw [Production.toRule, formed.starts]
  rfl

theorem single_rule (formed : grammar.Formed) : ∀ rule ∈ grammar.contextFree.rules,
    rule.input = (grammar.production grammar.startProduction).toRule.input →
      rule = (grammar.production grammar.startProduction).toRule := by
  intro rule member same
  obtain ⟨production, among, rfl⟩ := List.mem_map.mp (List.mem_toFinset.mp member)
  rw [formed.single production among same]

/-- What a charted item says. -/
theorem holds (formed : grammar.Formed) (charted : grammar.Charted word position item) :
    item.production < grammar.productions.length ∧
    Holds grammar.contextFree Terminal.Reads (grammar.production grammar.startProduction).lhs word position
      (grammar.production item.production).toRule item.dot item.origin := by
  obtain ⟨rule, known, holds⟩ := Earley.Charted.holds grammar.spells formed.begins charted
  obtain ⟨inside, rfl⟩ := Grammar.rules_eq_some known
  exact ⟨inside, holds⟩

theorem scan (formed : grammar.Formed) (charted : grammar.Charted word position item) {terminal : Terminal}
    {input : Input} {symbol : Symbol}
    (next : grammar.next item = some symbol) (is : symbol.toCf = .terminal terminal) (ahead : word[position]? = some input)
    (reading : terminal.Reads input) : grammar.Charted word (position + 1) item.advance := by
  apply Earley.Charted.scan charted (Grammar.rules_eq (formed.holds charted).1) _ ahead reading
  rw [Grammar.next_toCf, next, Option.map_some, is]

theorem predict (formed : grammar.Formed) (charted : grammar.Charted word position item)
    (next : grammar.next item = some (.rule rule))
    (member : index ∈ grammar.byLhs.getD rule []) : grammar.Charted word position ⟨index, 0, position⟩ := by
  obtain ⟨inside, rfl⟩ := (formed.byLhs rule index).mp member
  apply Earley.Charted.predict charted (Grammar.rules_eq (formed.holds charted).1) _ (Grammar.rules_eq inside)
  rw [Grammar.next_toCf, next]
  rfl

theorem complete (formed : grammar.Formed) {done : Item} (charted : grammar.Charted word done.origin item)
    (next : grammar.next item = some (.rule (grammar.production done.production).lhs))
    (completed : grammar.Charted word position done) (end_ : done.dot = (grammar.production done.production).rhs.length) :
    grammar.Charted word position item.advance := by
  apply Earley.Charted.complete charted (Grammar.rules_eq (formed.holds charted).1) _
    (Grammar.rules_eq (formed.holds completed).1)
  · rw [Production.toRule, List.length_map, ← end_]
    exact completed
  · rw [Grammar.next_toCf, next]
    rfl

/-- A charted item's dot is at the end of its production where nothing is behind it. -/
theorem next_eq_none_iff (formed : grammar.Formed) (charted : grammar.Charted word position item) :
    grammar.next item = none ↔ item.dot = (grammar.production item.production).rhs.length := by
  have inside := (formed.holds charted).2.inside
  rw [Production.toRule, List.length_map] at inside
  rw [Grammar.next, List.getElem?_eq_none_iff]
  omega

end Grammar.Formed

/-- What is charted at a position does not depend on what is read behind it. -/
theorem Grammar.charted_append (formed : grammar.Formed) (within : position ≤ word.length) :
    grammar.Charted (word ++ more) position item ↔ grammar.Charted word position item :=
  ⟨fun charted => Earley.Charted.of_append grammar.spells formed.begins charted within, fun charted => charted.append more⟩

end Rules

end Muser.Gbnf
