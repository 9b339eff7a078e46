import Muser.Lib.ContextFree

/-! # Earley items

The items an Earley recognizer charts for a word: a rule, how much of it has been read, and where its
reading began. They are given by the recognizer's inferences, over rules that are known by their
indices. An item says what it should, and every reading of the word is found among the items, in
whatever order they are charted.
-/

namespace Muser.Earley

open ContextFree

variable {T I ι : Type} {g : ContextFreeGrammar T}

/-- The items of a word, by the position they are charted at. -/
inductive Charted (rules : ι → Option (ContextFreeRule T g.NT)) (reads : T → I → Prop) (word : List I) (first : ι) :
    ℕ → ι → ℕ → ℕ → Prop
  | start : Charted rules reads word first 0 first 0 0
  | scan {position production dot origin rule terminal input}
      (item : Charted rules reads word first position production dot origin) (known : rules production = some rule)
      (next : rule.output[dot]? = some (.terminal terminal)) (ahead : word[position]? = some input)
      (reading : reads terminal input) : Charted rules reads word first (position + 1) production (dot + 1) origin
  | predict {position production dot origin rule other candidate}
      (item : Charted rules reads word first position production dot origin) (known : rules production = some rule)
      (next : rule.output[dot]? = some (.nonterminal other.input)) (found : rules candidate = some other) :
      Charted rules reads word first position candidate 0 position
  | complete {position middle production dot origin rule other candidate}
      (item : Charted rules reads word first middle production dot origin) (known : rules production = some rule)
      (next : rule.output[dot]? = some (.nonterminal other.input)) (found : rules candidate = some other)
      (done : Charted rules reads word first position candidate other.output.length middle) :
      Charted rules reads word first position production (dot + 1) origin

variable {rules : ι → Option (ContextFreeRule T g.NT)} {reads : T → I → Prop} {word : List I} {first : ι}
  {position origin dot : ℕ} {production : ι}

section Sound

theorem take_append_between (ordered : origin ≤ position) :
    word.take origin ++ (word.take position).drop origin = word.take position := by
  have front : (word.take position).take origin = word.take origin := by rw [List.take_take, Nat.min_eq_left ordered]
  rw [← front, List.take_append_drop]

/-- The symbols that can be left after a word was read from the start of a grammar. -/
def Leaves (g : ContextFreeGrammar T) (reads : T → I → Prop) (root : g.NT) (word : List I)
    (symbols : List (CfSymbol T g.NT)) : Prop :=
  ∃ terminals, g.Derives [.nonterminal root] (terminals.map .terminal ++ symbols) ∧ List.Forall₂ reads terminals word

variable {root : g.NT} {symbols front behind : List (CfSymbol T g.NT)} {inner : List I}

theorem Leaves.rewrite {rule : ContextFreeRule T g.NT}
    (leaves : Leaves g reads root word (.nonterminal rule.input :: behind))
    (rules : rule ∈ g.rules) : Leaves g reads root word (rule.output ++ behind) := by
  obtain ⟨terminals, derives, reading⟩ := leaves
  have rewritten : g.Produces (.nonterminal rule.input :: behind) (rule.output ++ behind) := ⟨rule, rules, .head behind⟩
  exact ⟨terminals, derives.trans_produces (rewritten.append_left _), reading⟩

theorem Leaves.read (leaves : Leaves g reads root word (front ++ behind)) (yields : Yields g reads front inner) :
    Leaves g reads root (word ++ inner) behind := by
  obtain ⟨terminals, derives, reading⟩ := leaves
  obtain ⟨inside, front, readings⟩ := yields.derives
  refine ⟨terminals ++ inside, ?_, List.rel_append reading readings⟩
  rw [List.map_append, List.append_assoc]
  exact derives.trans ((front.append_right behind).append_left _)

/-- What an item says: where its rule began, and what it has read since. -/
structure Holds (g : ContextFreeGrammar T) (reads : T → I → Prop) (root : g.NT) (word : List I) (position : ℕ)
    (rule : ContextFreeRule T g.NT) (dot origin : ℕ) : Prop where
  ordered : origin ≤ position
  within : position ≤ word.length
  inside : dot ≤ rule.output.length
  yields : Yields g reads (rule.output.take dot) ((word.take position).drop origin)
  leaves : ∃ behind, Leaves g reads root (word.take origin) (.nonterminal rule.input :: behind)

variable {rule : ContextFreeRule T g.NT}

/-- An item leaves the rest of its rule. -/
theorem Holds.rest (holds : Holds g reads root word position rule dot origin) (rules : rule ∈ g.rules) :
    ∃ behind, Leaves g reads root (word.take position) (rule.output.drop dot ++ behind) := by
  obtain ⟨behind, leaves⟩ := holds.leaves
  refine ⟨behind, ?_⟩
  have rewritten := leaves.rewrite rules
  rw [← List.take_append_drop dot rule.output, List.append_assoc] at rewritten
  have read := rewritten.read holds.yields
  rwa [take_append_between holds.ordered] at read

/-- Every item holds. -/
theorem Charted.holds (spells : ∀ rule, rule ∈ g.rules ↔ ∃ production, rules production = some rule)
    {start : ContextFreeRule T g.NT} (begins : rules first = some start)
    (charted : Charted rules reads word first position production dot origin) :
    ∃ rule, rules production = some rule ∧ Holds g reads start.input word position rule dot origin := by
  induction charted with
  | start =>
    refine ⟨start, begins, le_rfl, Nat.zero_le _, Nat.zero_le _, .nil, [], [], ?_, .nil⟩
    exact .refl _
  | @scan position production dot origin rule terminal input _ known next ahead reading ih =>
    obtain ⟨_, known', holds⟩ := ih
    cases known.symm.trans known'
    obtain ⟨inside, is⟩ := List.getElem?_eq_some_iff.mp next
    obtain ⟨within, input_eq⟩ := List.getElem?_eq_some_iff.mp ahead
    refine ⟨rule, known, holds.ordered.trans (Nat.le_succ _), within, inside, ?_, holds.leaves⟩
    have read : (word.take (position + 1)).drop origin = (word.take position).drop origin ++ [input] := by
      rw [List.take_succ_eq_append_getElem within, input_eq, List.drop_append_of_le_length]
      rw [List.length_take_of_le holds.within]
      exact holds.ordered
    rw [List.take_succ_eq_append_getElem inside, is, read]
    exact holds.yields.append (.terminal reading .nil)
  | @predict position production dot origin rule other candidate _ known next found ih =>
    obtain ⟨_, known', holds⟩ := ih
    cases known.symm.trans known'
    obtain ⟨inside, is⟩ := List.getElem?_eq_some_iff.mp next
    refine ⟨other, found, le_rfl, holds.within, Nat.zero_le _, ?_, ?_⟩
    · rw [List.drop_take_self]
      exact .nil
    · obtain ⟨behind, leaves⟩ := holds.rest ((spells rule).mpr ⟨production, known⟩)
      rw [List.drop_eq_getElem_cons inside, is] at leaves
      exact ⟨_, leaves⟩
  | @complete position middle production dot origin rule other candidate _ known next found _ ih ih' =>
    obtain ⟨_, known', holds⟩ := ih
    cases known.symm.trans known'
    obtain ⟨_, found', done⟩ := ih'
    cases found.symm.trans found'
    obtain ⟨inside, is⟩ := List.getElem?_eq_some_iff.mp next
    refine ⟨rule, known, holds.ordered.trans done.ordered, done.within, inside, ?_, holds.leaves⟩
    have read : (word.take position).drop origin =
        (word.take middle).drop origin ++ (word.take position).drop middle := by
      conv_lhs => rw [← take_append_between done.ordered]
      rw [List.drop_append_of_le_length]
      rw [List.length_take_of_le holds.within]
      exact holds.ordered
    have yields := done.yields
    rw [List.take_length] at yields
    rw [List.take_succ_eq_append_getElem inside, is, read]
    have nonterminal := Yields.nonterminal ((spells other).mpr ⟨candidate, found⟩) yields .nil
    rw [List.append_nil] at nonterminal
    exact holds.yields.append nonterminal

/-- Items do not depend on what is read behind them. -/
theorem Charted.append (charted : Charted rules reads word first position production dot origin) (more : List I) :
    Charted rules reads (word ++ more) first position production dot origin := by
  induction charted with
  | start => exact .start
  | scan item known next ahead reading ih =>
    exact ih.scan known next ((List.getElem?_append_left (List.getElem?_eq_some_iff.mp ahead).1).trans ahead) reading
  | predict item known next found ih => exact ih.predict known next found
  | complete item known next found done ih ih' => exact ih.complete known next found ih'

theorem Charted.of_append (spells : ∀ rule, rule ∈ g.rules ↔ ∃ production, rules production = some rule)
    {start : ContextFreeRule T g.NT} (begins : rules first = some start) {more : List I}
    (charted : Charted rules reads (word ++ more) first position production dot origin) :
    position ≤ word.length → Charted rules reads word first position production dot origin := by
  induction charted with
  | start => exact fun _ => .start
  | scan item known next ahead reading ih =>
    intro within
    rw [List.getElem?_append_left within] at ahead
    exact (ih (Nat.le_of_succ_le within)).scan known next ahead reading
  | predict item known next found ih => exact fun within => (ih within).predict known next found
  | complete item known next found done ih ih' =>
    intro within
    obtain ⟨_, _, holds⟩ := done.holds spells begins
    exact (ih (holds.ordered.trans within)).complete known next found (ih' within)

end Sound

section Complete

variable {rule : ContextFreeRule T g.NT} {symbols rest : List (CfSymbol T g.NT)} {inner ahead : List I}

/-- What stands first behind a place, and what is behind it. -/
theorem ahead_of_drop {α : Type} {items rest more : List α} {place : ℕ} {item : α}
    (is : items.drop place = item :: rest ++ more) :
    items[place]? = some item ∧ items.drop (place + 1) = rest ++ more := by
  rw [← List.head?_drop, ← List.drop_drop, is]
  exact ⟨rfl, rfl⟩

/-- An item reads on whatever the symbols ahead of it yield. -/
theorem Charted.readsOn (spells : ∀ rule, rule ∈ g.rules ↔ ∃ production, rules production = some rule)
    (yields : Yields g reads symbols inner) :
    ∀ {position dot origin : ℕ} {production : ι} {rule : ContextFreeRule T g.NT} {rest : List (CfSymbol T g.NT)}
      {ahead : List I}, Charted rules reads word first position production dot origin → rules production = some rule →
      rule.output.drop dot = symbols ++ rest → word.drop position = inner ++ ahead →
      Charted rules reads word first (position + inner.length) production (dot + symbols.length) origin := by
  induction yields with
  | nil =>
    intro position dot origin production rule rest ahead item _ _ _
    exact item
  | @terminal terminal input symbols inner reading _ ih =>
    intro position dot origin production rule rest ahead item known dotted here
    obtain ⟨next, further⟩ := ahead_of_drop dotted
    obtain ⟨input_eq, beyond⟩ := ahead_of_drop here
    have read := ih (item.scan known next input_eq reading) known further beyond
    rwa [Nat.add_assoc, Nat.add_assoc, Nat.add_comm 1, Nat.add_comm 1] at read
  | @nonterminal other symbols inner outer member _ _ ih ih' =>
    intro position dot origin production rule rest ahead item known dotted here
    obtain ⟨candidate, found⟩ := (spells other).mp member
    obtain ⟨next, further⟩ := ahead_of_drop dotted
    rw [List.append_assoc] at here
    have beyond : word.drop (position + inner.length) = outer ++ ahead := by
      rw [← List.drop_drop, here, List.drop_left]
    have done := ih (item.predict known next found) found (List.append_nil _).symm here
    rw [Nat.zero_add] at done
    have read := ih' (item.complete known next found done) known further beyond
    rw [List.length_append, List.length_cons, ← Nat.add_assoc, Nat.add_comm symbols.length, ← Nat.add_assoc]
    exact read

/-- The next input is read by a charted item wherever the word may go on with it. -/
theorem Charted.foresees (spells : ∀ rule, rule ∈ g.rules ↔ ∃ production, rules production = some rule)
    {begun : List I} (begins : Begins g reads symbols begun) :
    ∀ {position dot origin : ℕ} {production : ι} {rule : ContextFreeRule T g.NT} {rest : List (CfSymbol T g.NT)}
      {inner : List I} {input : I}, Charted rules reads word first position production dot origin →
      rules production = some rule → rule.output.drop dot = symbols ++ rest → word.drop position = inner →
      position ≤ word.length → begun = inner ++ [input] →
      ∃ production dot origin rule terminal, Charted rules reads word first word.length production dot origin ∧
        rules production = some rule ∧ rule.output[dot]? = some (.terminal terminal) ∧ reads terminal input := by
  induction begins with
  | nil =>
    intro position dot origin production rule rest inner input _ _ _ _ _ last
    exact absurd last.symm (by simp)
  | @terminal terminal input' symbols begun reading _ ih =>
    intro position dot origin production rule rest inner input item known dotted here within last
    obtain ⟨next, further⟩ := ahead_of_drop dotted
    cases inner with
    | nil =>
      cases last
      have position_eq : position = word.length := le_antisymm within (List.drop_eq_nil_iff.mp here)
      subst position_eq
      exact ⟨production, dot, origin, rule, terminal, item, known, next, reading⟩
    | cons head inner =>
      rw [List.cons_append, List.cons.injEq] at last
      obtain ⟨rfl, last⟩ := last
      have input_eq : word[position]? = some input' := by
        rw [← List.head?_drop, here]
        rfl
      have beyond : word.drop (position + 1) = inner := by
        rw [← List.drop_drop, here]
        rfl
      have more : position + 1 ≤ word.length := (List.getElem?_eq_some_iff.mp input_eq).1
      exact ih (item.scan known next input_eq reading) known further beyond more last
  | @inside other symbols begun member _ ih =>
    intro position dot origin production rule rest inner input item known dotted here within last
    obtain ⟨candidate, found⟩ := (spells other).mp member
    obtain ⟨next, -⟩ := ahead_of_drop dotted
    exact ih (item.predict known next found) found (List.append_nil _).symm here within last
  | @behind other symbols before after member yields more _ ih =>
    intro position dot origin production rule rest inner input item known dotted here within last
    obtain ⟨candidate, found⟩ := (spells other).mp member
    obtain ⟨next, further⟩ := ahead_of_drop dotted
    -- What is behind the rule is not empty, so the last input is behind it.
    obtain ⟨outer, final, rfl⟩ := List.eq_nil_or_concat after |>.resolve_left more
    rw [List.concat_eq_append, ← List.append_assoc] at last
    obtain ⟨same, final_eq⟩ := List.append_inj' last rfl
    rw [← same] at here
    have beyond : word.drop (position + before.length) = outer := by rw [← List.drop_drop, here, List.drop_left]
    have reach : position + before.length ≤ word.length := by
      have lengths := congrArg List.length here
      rw [List.length_drop, List.length_append] at lengths
      omega
    have done := Charted.readsOn spells yields (item.predict known next found) found (List.append_nil _).symm here
    rw [Nat.zero_add] at done
    exact ih (item.complete known next found done) known further beyond reach
      (by rw [List.concat_eq_append, final_eq])

end Complete

section Recognizer

variable {root : g.NT} {start : ContextFreeRule T g.NT}

/-- A rule that only starts the root is read to its end where the root yields the word. -/
theorem charted_start_iff (spells : ∀ rule, rule ∈ g.rules ↔ ∃ production, rules production = some rule)
    (begins : rules first = some start) (starts : start.output = [.nonterminal root]) :
    Charted rules reads word first word.length first 1 0 ↔ Yields g reads [.nonterminal root] word := by
  constructor
  · intro charted
    obtain ⟨rule, known, holds⟩ := charted.holds spells begins
    cases known.symm.trans begins
    have yields := holds.yields
    rwa [starts, List.take_of_length_le (show [_].length ≤ 1 from le_rfl), List.take_length, List.drop_zero] at yields
  · intro yields
    have read := Charted.readsOn spells yields (.start : Charted rules reads word first 0 first 0 0) begins
      (show start.output.drop 0 = [.nonterminal root] ++ [] by rw [starts]; rfl) (List.append_nil _).symm
    rwa [Nat.zero_add] at read

/-- A string other than the start that the start derives comes from the root. -/
theorem derives_root (starts : start.output = [.nonterminal root])
    (single : ∀ rule ∈ g.rules, rule.input = start.input → rule = start) {symbols : List (CfSymbol T g.NT)}
    (derives : g.Derives [.nonterminal start.input] symbols) (other : symbols ≠ [.nonterminal start.input]) :
    g.Derives [.nonterminal root] symbols := by
  rcases derives.eq_or_head with same | ⟨middle, ⟨rule, member, rewrites⟩, derives⟩
  · exact absurd same.symm other
  · obtain ⟨front, back, alone, rfl⟩ := rewrites.exists_parts
    obtain ⟨rfl, rfl, is⟩ : front = [] ∧ back = [] ∧ rule.input = start.input := by
      cases front with
      | nil => simpa [and_comm, eq_comm] using alone
      | cons symbol front => simp at alone
    rwa [single rule member is, starts, List.nil_append, List.append_nil] at derives

/-- The inputs that charted items read next are those the word may go on with. -/
theorem charted_next_iff (spells : ∀ rule, rule ∈ g.rules ↔ ∃ production, rules production = some rule)
    (begins : rules first = some start) (starts : start.output = [.nonterminal root])
    (single : ∀ rule ∈ g.rules, rule.input = start.input → rule = start) (input : I) :
    (∃ production dot origin rule terminal, Charted rules reads word first word.length production dot origin ∧
      rules production = some rule ∧ rule.output[dot]? = some (.terminal terminal) ∧ reads terminal input) ↔
    Begins g reads [.nonterminal root] (word ++ [input]) := by
  constructor
  · rintro ⟨production, dot, origin, rule, terminal, charted, known, next, reading⟩
    obtain ⟨rule', known', holds⟩ := charted.holds spells begins
    cases known.symm.trans known'
    obtain ⟨behind, terminals, derives, readings⟩ := holds.rest ((spells rule).mpr ⟨production, known⟩)
    obtain ⟨inside, is⟩ := List.getElem?_eq_some_iff.mp next
    rw [List.take_length] at readings
    rw [List.drop_eq_getElem_cons inside, is] at derives
    refine begins_iff_derives.mpr ⟨terminals ++ [terminal], rule.output.drop (dot + 1) ++ behind, ?_,
      List.rel_append readings (.cons reading .nil)⟩
    rw [List.map_append, List.append_assoc]
    apply derives_root starts single derives
    intro alone
    have member : (.terminal terminal : CfSymbol T g.NT) ∈ [.nonterminal start.input] := by
      rw [← alone]
      simp
    simp at member
  · intro begins'
    have dotted : start.output.drop 0 = [.nonterminal root] ++ [] := by
      rw [starts]
      rfl
    exact Charted.foresees spells begins' .start begins dotted rfl (Nat.zero_le _) rfl

end Recognizer

end Muser.Earley
