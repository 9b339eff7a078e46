import Mathlib.Computability.ContextFreeGrammar

/-! # What a context-free grammar reads

The terminals of a grammar are conditions on inputs: a class of characters, say. A string of symbols
yields the words its terminals can be read as, and begins the words that go on to a sentential form.
Both are given by rules, which is what recognizers argue about, and both are what derivation says.
-/

namespace Muser.ContextFree

variable {T I : Type} (g : ContextFreeGrammar T) (reads : T → I → Prop)

abbrev CfSymbol (T N : Type) := Symbol T N

/-- The words of a string of symbols. -/
inductive Yields : List (CfSymbol T g.NT) → List I → Prop
  | nil : Yields [] []
  | terminal {terminal : T} {input : I} {symbols word} (reading : reads terminal input) (rest : Yields symbols word) :
      Yields (.terminal terminal :: symbols) (input :: word)
  | nonterminal {rule : ContextFreeRule T g.NT} {symbols inner outer} (rules : rule ∈ g.rules)
      (inside : Yields rule.output inner) (rest : Yields symbols outer) :
      Yields (.nonterminal rule.input :: symbols) (inner ++ outer)

/-- The words a string of symbols can start with. -/
inductive Begins : List (CfSymbol T g.NT) → List I → Prop
  | nil {symbols} : Begins symbols []
  | terminal {terminal : T} {input : I} {symbols word} (reading : reads terminal input) (rest : Begins symbols word) :
      Begins (.terminal terminal :: symbols) (input :: word)
  | inside {rule : ContextFreeRule T g.NT} {symbols word} (rules : rule ∈ g.rules) (inside : Begins rule.output word) :
      Begins (.nonterminal rule.input :: symbols) word
  | behind {rule : ContextFreeRule T g.NT} {symbols inner outer} (rules : rule ∈ g.rules)
      (inside : Yields g reads rule.output inner) (more : outer ≠ []) (rest : Begins symbols outer) :
      Begins (.nonterminal rule.input :: symbols) (inner ++ outer)

variable {g reads} {symbols front back : List (CfSymbol T g.NT)} {word : List I}

namespace Yields

theorem append {first second : List I} (left : Yields g reads front first) (right : Yields g reads back second) :
    Yields g reads (front ++ back) (first ++ second) := by
  induction left with
  | nil => exact right
  | terminal reading _ ih => exact .terminal reading ih
  | nonterminal rules inside _ _ ih =>
    rw [List.append_assoc]
    exact .nonterminal rules inside ih

theorem split (yields : Yields g reads (front ++ back) word) :
    ∃ first second, word = first ++ second ∧ Yields g reads front first ∧ Yields g reads back second := by
  induction front generalizing word with
  | nil => exact ⟨[], word, rfl, .nil, yields⟩
  | cons symbol front ih =>
    cases yields with
    | terminal reading rest =>
      obtain ⟨first, second, rfl, left, right⟩ := ih rest
      exact ⟨_ :: first, second, rfl, .terminal reading left, right⟩
    | @nonterminal rule _ inner _ rules inside rest =>
      obtain ⟨first, second, rfl, left, right⟩ := ih rest
      exact ⟨inner ++ first, second, (List.append_assoc _ _ _).symm, .nonterminal rules inside left, right⟩

/-- A string of terminals yields the words it is read as. -/
theorem terminals {terminals : List T} (reading : List.Forall₂ reads terminals word) :
    Yields g reads (terminals.map .terminal) word := by
  induction reading with
  | nil => exact .nil
  | cons first _ ih => exact .terminal first ih

theorem of_produces (produces : g.Produces front back) (yields : Yields g reads back word) :
    Yields g reads front word := by
  obtain ⟨rule, rules, rewrites⟩ := produces
  obtain ⟨left, right, rfl, rfl⟩ := rewrites.exists_parts
  obtain ⟨first, last, rfl, before, after⟩ := yields.split
  obtain ⟨first, middle, rfl, before, inside⟩ := before.split
  rw [List.append_assoc, List.append_assoc]
  exact before.append (Yields.nonterminal rules inside after)

theorem of_derives (derives : g.Derives front back) (yields : Yields g reads back word) :
    Yields g reads front word := by
  induction derives using Relation.ReflTransGen.head_induction_on with
  | refl => exact yields
  | head produces _ ih => exact of_produces produces ih

theorem derives (yields : Yields g reads symbols word) :
    ∃ terminals, g.Derives symbols (terminals.map .terminal) ∧ List.Forall₂ reads terminals word := by
  induction yields with
  | nil => exact ⟨[], .refl _, .nil⟩
  | @terminal terminal _ _ _ reading _ ih =>
    obtain ⟨terminals, derives, readings⟩ := ih
    exact ⟨terminal :: terminals, derives.append_left [.terminal terminal], .cons reading readings⟩
  | @nonterminal rule symbols inner _ rules _ _ first second =>
    obtain ⟨inside, inner, reading⟩ := first
    obtain ⟨outside, outer, readings⟩ := second
    refine ⟨inside ++ outside, ?_, List.rel_append reading readings⟩
    have rewritten : g.Produces (.nonterminal rule.input :: symbols) (rule.output ++ symbols) := ⟨rule, rules, .head symbols⟩
    rw [List.map_append]
    exact (rewritten.single.trans (inner.append_right symbols)).trans (outer.append_left _)

end Yields

variable (g reads) in
/-- The words of a string of symbols where each nonterminal has a meaning of its own. -/
inductive Interprets (meaning : g.NT → List I → Prop) : List (CfSymbol T g.NT) → List I → Prop
  | nil : Interprets meaning [] []
  | terminal {terminal : T} {input : I} {symbols word} (reading : reads terminal input)
      (rest : Interprets meaning symbols word) : Interprets meaning (.terminal terminal :: symbols) (input :: word)
  | nonterminal {name : g.NT} {symbols inner outer} (inside : meaning name inner) (rest : Interprets meaning symbols outer) :
      Interprets meaning (.nonterminal name :: symbols) (inner ++ outer)

variable {meaning : g.NT → List I → Prop}

theorem Interprets.split (interprets : Interprets g reads meaning (front ++ back) word) :
    ∃ first second, word = first ++ second ∧ Interprets g reads meaning front first ∧
      Interprets g reads meaning back second := by
  induction front generalizing word with
  | nil => exact ⟨[], word, rfl, .nil, interprets⟩
  | cons symbol front ih =>
    cases interprets with
    | terminal reading rest =>
      obtain ⟨first, second, rfl, left, right⟩ := ih rest
      exact ⟨_ :: first, second, rfl, .terminal reading left, right⟩
    | @nonterminal name _ inner _ inside rest =>
      obtain ⟨first, second, rfl, left, right⟩ := ih rest
      exact ⟨inner ++ first, second, (List.append_assoc _ _ _).symm, .nonterminal inside left, right⟩

theorem Interprets.of_nil (interprets : Interprets g reads meaning [] word) : word = [] := by
  cases interprets
  rfl

theorem Interprets.of_terminal {terminal : T}
    (interprets : Interprets g reads meaning (.terminal terminal :: symbols) word) :
    ∃ input rest, word = input :: rest ∧ reads terminal input ∧ Interprets g reads meaning symbols rest := by
  cases interprets with
  | terminal reading rest => exact ⟨_, _, rfl, reading, rest⟩

theorem interprets_rule_iff {name : g.NT} :
    Interprets g reads meaning [.nonterminal name] word ↔ meaning name word := by
  constructor
  · intro interprets
    cases interprets with
    | nonterminal inside rest =>
      cases rest
      rwa [List.append_nil]
  · intro inside
    rw [← List.append_nil word]
    exact .nonterminal inside .nil

/-- Meanings that every rule keeps are those of all that is yielded. -/
theorem Yields.interprets
    (keeps : ∀ rule ∈ g.rules, ∀ word, Interprets g reads meaning rule.output word → meaning rule.input word)
    (yields : Yields g reads symbols word) : Interprets g reads meaning symbols word := by
  induction yields with
  | nil => exact .nil
  | terminal reading _ ih => exact .terminal reading ih
  | nonterminal rules _ _ inside rest => exact .nonterminal (keeps _ rules _ inside) rest

/-- Yielding a word is deriving terminals that read it. -/
theorem yields_iff_derives : Yields g reads symbols word ↔
    ∃ terminals, g.Derives symbols (terminals.map .terminal) ∧ List.Forall₂ reads terminals word := by
  constructor
  · exact Yields.derives
  · rintro ⟨terminals, derives, reading⟩
    exact .of_derives derives (.terminals reading)

namespace Begins

theorem of_yields (yields : Yields g reads symbols word) : Begins g reads symbols word := by
  induction yields with
  | nil => exact .nil
  | terminal reading _ ih => exact .terminal reading ih
  | @nonterminal _ _ inner outer rules inside _ first second =>
    cases outer with
    | nil =>
      rw [List.append_nil]
      exact .inside rules first
    | cons input outer => exact .behind rules inside (List.cons_ne_nil _ _) second

theorem append_right (begins : Begins g reads front word) (back : List (CfSymbol T g.NT)) :
    Begins g reads (front ++ back) word := by
  induction begins with
  | nil => exact .nil
  | terminal reading _ ih => exact .terminal reading ih
  | inside rules inside => exact .inside rules inside
  | behind rules inside more _ ih => exact .behind rules inside more ih

theorem append_left {first second : List I} (left : Yields g reads front first) (right : Begins g reads back second) :
    Begins g reads (front ++ back) (first ++ second) := by
  induction left with
  | nil => exact right
  | terminal reading _ ih => exact .terminal reading ih
  | @nonterminal rule symbols inner outer rules inside rest _ ih =>
    rw [List.append_assoc]
    cases joined : outer ++ second with
    | nil =>
      rw [List.append_nil]
      exact .inside rules (of_yields inside)
    | cons input rest =>
      rw [joined] at ih
      exact .behind rules inside (List.cons_ne_nil _ _) ih

/-- A word that begins two strings ends in the first or goes on into the second. -/
theorem split (begins : Begins g reads (front ++ back) word) :
    Begins g reads front word ∨
      ∃ first second, word = first ++ second ∧ Yields g reads front first ∧ Begins g reads back second := by
  induction front generalizing word with
  | nil => exact .inr ⟨[], word, rfl, .nil, begins⟩
  | cons symbol front ih =>
    cases begins with
    | nil => exact .inl .nil
    | terminal reading rest =>
      rcases ih rest with early | ⟨first, second, rfl, left, right⟩
      · exact .inl (.terminal reading early)
      · exact .inr ⟨_ :: first, second, rfl, .terminal reading left, right⟩
    | inside rules inside => exact .inl (.inside rules inside)
    | @behind rule _ inner _ rules inside more rest =>
      rcases ih rest with early | ⟨first, second, rfl, left, right⟩
      · exact .inl (.behind rules inside more early)
      · exact .inr ⟨inner ++ first, second, (List.append_assoc _ _ _).symm, .nonterminal rules inside left, right⟩

theorem of_produces (produces : g.Produces front back) (begins : Begins g reads back word) :
    Begins g reads front word := by
  obtain ⟨rule, rules, rewrites⟩ := produces
  obtain ⟨left, right, rfl, rfl⟩ := rewrites.exists_parts
  rw [List.append_assoc] at begins ⊢
  rcases begins.split with early | ⟨first, second, rfl, before, begins⟩
  · exact early.append_right _
  · apply append_left before
    rcases begins.split with middle | ⟨inner, outer, rfl, inside, after⟩
    · exact .inside rules middle
    · cases outer with
      | nil =>
        rw [List.append_nil]
        exact .inside rules (of_yields inside)
      | cons input outer => exact .behind rules inside (List.cons_ne_nil _ _) after

theorem of_derives (derives : g.Derives front back) (begins : Begins g reads back word) :
    Begins g reads front word := by
  induction derives using Relation.ReflTransGen.head_induction_on with
  | refl => exact begins
  | head produces _ ih => exact of_produces produces ih

theorem derives (begins : Begins g reads symbols word) :
    ∃ terminals rest, g.Derives symbols (terminals.map .terminal ++ rest) ∧ List.Forall₂ reads terminals word := by
  induction begins with
  | @nil symbols => exact ⟨[], symbols, .refl _, .nil⟩
  | @terminal terminal _ _ _ reading _ ih =>
    obtain ⟨terminals, rest, derives, readings⟩ := ih
    exact ⟨terminal :: terminals, rest, derives.append_left [.terminal terminal], .cons reading readings⟩
  | @inside rule symbols _ rules _ ih =>
    obtain ⟨terminals, rest, derives, readings⟩ := ih
    have rewritten : g.Produces (.nonterminal rule.input :: symbols) (rule.output ++ symbols) := ⟨rule, rules, .head symbols⟩
    refine ⟨terminals, rest ++ symbols, ?_, readings⟩
    rw [← List.append_assoc]
    exact rewritten.single.trans (derives.append_right symbols)
  | @behind rule symbols _ _ rules inside _ _ ih =>
    obtain ⟨first, inner, reading⟩ := inside.derives
    obtain ⟨terminals, rest, derives, readings⟩ := ih
    have rewritten : g.Produces (.nonterminal rule.input :: symbols) (rule.output ++ symbols) := ⟨rule, rules, .head symbols⟩
    refine ⟨first ++ terminals, rest, ?_, List.rel_append reading readings⟩
    rw [List.map_append, List.append_assoc]
    exact (rewritten.single.trans (inner.append_right symbols)).trans (derives.append_left _)

end Begins

/-- Beginning a word is deriving a sentential form whose first terminals read it. -/
theorem begins_iff_derives : Begins g reads symbols word ↔
    ∃ terminals rest, g.Derives symbols (terminals.map .terminal ++ rest) ∧ List.Forall₂ reads terminals word := by
  constructor
  · exact Begins.derives
  · rintro ⟨terminals, rest, derives, reading⟩
    exact .of_derives derives ((Begins.of_yields (.terminals reading)).append_right rest)

end Muser.ContextFree
