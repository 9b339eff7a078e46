import Muser.Gbnf.Lowered

/-! # What the rules of a text derive

With every rule lowered, the number of a name derives the name's words, as long as no name that is
written is made for a rule as well. Where one is, the productions of two rules come under one number.
-/

namespace Muser.Gbnf

open ContextFree

/-- How many alternatives a phrase has. -/
def Phrase.width : {kind : Kind} → Phrase kind → ℕ
  | _, .choice _ others => others.width + 1
  | _, _ => 1

namespace Definitions

/-- How many alternatives are written under a name. -/
def width (name : String) (definitions : Definitions) : ℕ :=
  ((definitions.filter fun definition => definition.1 = name).map fun definition => definition.2.width).sum

/-- No name that is written is one that a group or a repetition gets. -/
def Distinct (definitions : Definitions) : Prop :=
  ∀ name ∈ definitions.writes, ∀ index < definitions.makes.length, name ≠ generatedName index

/-- The productions of the rules that are made. -/
def made : ℕ → Definitions → List NamedProduction
  | _, [] => []
  | counter, (_, alternatives) :: others =>
    alternatives.productions counter ++ made (counter + alternatives.makes.length) others

end Definitions

/-- The rules of a text and their grammar keep its meaning: a name that is written derives the words of
its alternatives, and has one production for each of them. -/
structure Preserves (definitions : Definitions) (rules : Rules) (grammar : Grammar) : Prop where
  language : ∀ name ∈ definitions.writes, ∀ word,
    grammar.Derives (rules.names.idxOf name) word ↔ Means definitions (.name name) word
  apart : ∀ name ∈ definitions.writes,
    (grammar.productions.countP fun production => production.lhs = rules.names.idxOf name) = definitions.width name

theorem generatedName_injective {index other : ℕ} (same : generatedName index = generatedName other) : index = other := by
  rw [generatedName, generatedName] at same
  have digits : index.repr.toList = other.repr.toList := congrArg String.toList ((String.append_right_inj _).mp same)
  rw [Nat.repr_eq_ofList_toDigits, Nat.repr_eq_ofList_toDigits, String.toList_ofList, String.toList_ofList] at digits
  rw [← @Nat.ofDigitChars_ten_toDigits index, digits, Nat.ofDigitChars_ten_toDigits]

section Counting

variable {kind : Kind} {counter made more : ℕ} {productions others : List NamedProduction} {definitions : Definitions}

/-- The names of the productions are those made from the counter on. -/
def NamedFrom (productions : List NamedProduction) (counter made : ℕ) : Prop :=
  ∀ name, (∃ production ∈ productions, production.name = name) ↔ ∃ index < made, name = generatedName (counter + index)

theorem namedFrom_nil : NamedFrom [] counter 0 := fun name => by simp

theorem NamedFrom.append (first : NamedFrom productions counter made) (second : NamedFrom others (counter + made) more) :
    NamedFrom (productions ++ others) counter (made + more) := by
  intro name
  simp only [List.mem_append, or_and_right, exists_or]
  rw [first, second]
  constructor
  · rintro (⟨index, small, is⟩ | ⟨index, small, is⟩)
    · exact ⟨index, by lia, is⟩
    · exact ⟨made + index, by lia, is.trans (by rw [Nat.add_assoc])⟩
  · rintro ⟨index, small, is⟩
    by_cases early : index < made
    · exact .inl ⟨index, early, is⟩
    · exact .inr ⟨index - made, by lia, is.trans (by congr 1; lia)⟩

/-- Productions of one made name. -/
theorem namedFrom_map {bodies : List (List Reference)} (some_ : bodies ≠ []) :
    NamedFrom (bodies.map (NamedProduction.mk (generatedName counter))) counter 1 := by
  intro name
  obtain ⟨body, member⟩ := List.exists_mem_of_ne_nil _ some_
  constructor
  · rintro ⟨_, among, rfl⟩
    obtain ⟨_, -, rfl⟩ := List.mem_map.mp among
    exact ⟨0, Nat.one_pos, rfl⟩
  · rintro ⟨index, small, rfl⟩
    obtain rfl : index = 0 := by lia
    exact ⟨_, List.mem_map_of_mem member, rfl⟩

theorem NamedFrom.swap (named : NamedFrom (others ++ productions) counter made) :
    NamedFrom (productions ++ others) counter made := by
  intro name
  rw [← named name]
  simp only [List.mem_append, or_comm]

theorem tailProductions_named (body : List Reference) (optional index : ℕ) :
    NamedFrom (tailProductions body optional index) index optional := by
  induction optional generalizing index with
  | zero => exact namedFrom_nil
  | succ optional ih =>
    have here := @namedFrom_map index
      [[], if 0 < optional then body ++ [Reference.rule (generatedName (index + 1))] else body] (List.cons_ne_nil _ _)
    have whole := here.append (ih (index + 1))
    rw [Nat.add_comm 1] at whole
    exact whole

theorem repeatProductions_named (body : List Reference) (minimum : ℕ) (maximum : Option ℕ) (counter : ℕ) :
    NamedFrom (repeatProductions body minimum maximum counter) counter (repeatCount minimum maximum) := by
  cases maximum with
  | none =>
    have first := @namedFrom_map counter [(List.replicate minimum body).flatten ++
      [Reference.rule (generatedName (counter + 1))]]
      (List.cons_ne_nil _ _)
    have tail := @namedFrom_map (counter + 1) [[],
      body ++ [Reference.rule (generatedName (counter + 1))]] (List.cons_ne_nil _ _)
    exact (first.append tail).swap
  | some most =>
    let required := (List.replicate minimum body).flatten
    have first := @namedFrom_map counter
      [if 0 < most - minimum then required ++ [Reference.rule (generatedName (counter + 1))] else required]
        (List.cons_ne_nil _ _)
    exact (first.append (tailProductions_named body (most - minimum) (counter + 1))).swap

theorem length_bodies (phrase : Phrase kind) (counter : ℕ) : (phrase.bodies counter).length = phrase.width := by
  induction phrase generalizing counter with
  | choice first others _ ih => rw [Phrase.bodies, Phrase.width, List.length_cons, ih]
  | _ => rfl

theorem bodies_ne_nil (phrase : Phrase kind) (counter : ℕ) : phrase.bodies counter ≠ [] := by
  cases phrase <;> exact List.cons_ne_nil _ _

/-- The productions a phrase adds are those of the names it makes. -/
theorem productions_named (phrase : Phrase kind) (counter : ℕ) :
    NamedFrom (phrase.productions counter) counter phrase.makes.length := by
  induction phrase generalizing counter with
  | one only ih => exact ih counter
  | choice first others ih ih' | followed first others ih ih' =>
    rw [Phrase.makes, List.length_append]
    exact (ih counter).append (ih' _)
  | once atom ih => exact ih counter
  | repeated atom minimum maximum ih =>
    rw [Phrase.makes_repeated]
    exact (ih counter).append (repeatProductions_named _ _ _ _)
  | group alternatives ih =>
    rw [Phrase.makes, List.length_append]
    exact (ih counter).append (namedFrom_map (bodies_ne_nil alternatives counter))
  | empty | literal | characterClass | any | token | name => exact namedFrom_nil

theorem Definitions.made_named (definitions : Definitions) (counter : ℕ) :
    NamedFrom (definitions.made counter) counter definitions.makes.length := by
  induction definitions generalizing counter with
  | nil => exact namedFrom_nil
  | cons definition definitions ih =>
    rw [Definitions.makes, List.flatMap_cons, List.length_append]
    exact (productions_named definition.2 counter).append (ih _)

/-- The productions of a name: one for each alternative under it, and those that are made. -/
theorem Definitions.countP_productions (name : String) (definitions : Definitions) (counter : ℕ) :
    ((definitions.productions counter).countP fun production => production.name = name) =
      definitions.width name + (definitions.made counter).countP fun production => production.name = name := by
  induction definitions generalizing counter with
  | nil => rfl
  | cons definition definitions ih =>
    obtain ⟨other, phrase⟩ := definition
    rw [Definitions.productions, Definitions.made, List.countP_append, List.countP_append, List.countP_append, ih]
    have own : (((phrase.bodies counter).map (NamedProduction.mk other)).countP fun production => production.name = name) =
        if other = name then phrase.width else 0 := by
      rw [List.countP_map, ← length_bodies phrase counter]
      split
      · next same => simp [same, Function.comp_def]
      · next differ => simp [differ, Function.comp_def]
    rw [own, Definitions.width, Definitions.width, List.filter_cons]
    rcases eq_or_ne other name with rfl | differ
    · simp only [if_true, decide_true, List.map_cons, List.sum_cons]
      lia
    · simp only [if_neg differ, decide_eq_false differ, Bool.false_eq_true, if_false]
      lia

end Counting

section Lowered

variable {definitions : Definitions} {rules : Rules} {grammar : Grammar} {root : String}

/-- The rules of some definitions: what a parser that started with none has. -/
abbrev Rules.Of (rules : Rules) (definitions : Definitions) : Prop :=
  Lowers ⟨[], [], 0⟩ rules (definitions.productions 0) definitions.makes.length definitions.writes

theorem Rules.Of.mem_names (of : rules.Of definitions) (name : String) : name ∈ rules.names ↔
    name ∈ definitions.writes ∨ ∃ index < definitions.makes.length, name = generatedName index := by
  rw [of.members]
  simp

theorem Rules.Of.productions_eq (of : rules.Of definitions) :
    rules.productions = (definitions.productions 0).map (NamedProduction.number rules.names) := of.productions

/-- What a grammar of rules is. -/
theorem Rules.grammar_eq (is : rules.grammar root = .ok grammar) : root ∈ rules.names ∧
    grammar.productions = rules.productions ++ [⟨rules.names.length, [.rule (rules.names.idxOf root)]⟩] ∧
    grammar.byLhs = (List.range (rules.names.length + 1)).map (fun lhs =>
      (List.range grammar.productions.length).filter fun index => (grammar.productions.getD index ⟨0, []⟩).lhs = lhs) ∧
    grammar.startProduction = rules.productions.length := by
  rw [Rules.grammar] at is
  split at is
  · next known =>
    dsimp only at is
    split at is
    · cases is
    · cases is
      exact ⟨known, rfl, rfl, rfl⟩
  · cases is

variable {name : String} {kind : Kind}

/-- The productions that a name has. -/
theorem countP_number (of : rules.Of definitions) (is : rules.grammar root = .ok grammar)
    (written : name ∈ definitions.writes) :
    (grammar.productions.countP fun production => production.lhs = rules.names.idxOf name) =
      definitions.width name + (definitions.made 0).countP fun production => production.name = name := by
  obtain ⟨-, productions, -, -⟩ := Rules.grammar_eq is
  have known := (of.mem_names name).mpr (.inl written)
  have inside := List.idxOf_lt_length_of_mem known
  rw [productions, of.productions_eq, List.countP_append, List.countP_map, List.countP_singleton,
    if_neg (by simpa using (Nat.ne_of_lt inside).symm), Nat.add_zero, ← Definitions.countP_productions]
  apply List.countP_congr
  intro production member
  rw [Function.comp_apply, decide_eq_true_eq, decide_eq_true_eq]
  exact List.idxOf_inj (of.known production member).1

theorem distinct_of_apart (of : rules.Of definitions) (is : rules.grammar root = .ok grammar)
    (apart : ∀ name ∈ definitions.writes,
      (grammar.productions.countP fun production => production.lhs = rules.names.idxOf name) = definitions.width name) :
    definitions.Distinct := by
  rintro name written index small rfl
  have none_ := apart _ written
  rw [countP_number of is written] at none_
  obtain ⟨production, member, named⟩ := (definitions.made_named 0 (generatedName index)).mpr ⟨index, small,
    by rw [Nat.zero_add]⟩
  have some_ : 0 < (definitions.made 0).countP fun production => production.name = generatedName index :=
    List.countP_pos_iff.mpr ⟨production, member, decide_eq_true named⟩
  omega

/-- What a number means: of a name that is written its words, and of one that is made those of its phrase. -/
def Definitions.Stands (definitions : Definitions) (names : List String) (number : ℕ) (word : List Input) : Prop :=
  ∀ name ∈ names, names.idxOf name = number →
    (name ∈ definitions.writes ∧ Means definitions (.name name) word) ∨
      ∃ index item, definitions.makes[index]? = some item ∧ name = generatedName index ∧ Means definitions item word

theorem stands_iff (distinct : definitions.Distinct) (of : rules.Of definitions)
    (written : name ∈ definitions.writes) (word : List Input) :
    definitions.Stands rules.names (rules.names.idxOf name) word ↔ Means definitions (.name name) word := by
  have known := (of.mem_names name).mpr (.inl written)
  constructor
  · intro stands
    rcases stands name known rfl with ⟨-, means⟩ | ⟨index, item, found, rfl, -⟩
    · exact means
    · exact absurd rfl (distinct _ written index (List.getElem?_eq_some_iff.mp found).1)
  · intro means other known' same
    obtain rfl := (List.idxOf_inj known').mp same
    exact .inl ⟨written, means⟩

theorem stands_made_iff (distinct : definitions.Distinct) (of : rules.Of definitions) {index : ℕ} {item : Phrase .item}
    (found : definitions.makes[index]? = some item) (word : List Input) :
    definitions.Stands rules.names (rules.names.idxOf (generatedName index)) word ↔ Means definitions item word := by
  have small := (List.getElem?_eq_some_iff.mp found).1
  have known := (of.mem_names (generatedName index)).mpr (.inr ⟨index, small, rfl⟩)
  constructor
  · intro stands
    rcases stands _ known rfl with ⟨written, -⟩ | ⟨other, item', found', same, means⟩
    · exact absurd rfl (distinct _ written index small)
    · obtain rfl := generatedName_injective same
      cases found.symm.trans found'
      exact means
  · intro means other known' same
    obtain rfl := (List.idxOf_inj known').mp same
    exact .inr ⟨index, item, found, rfl, means⟩

/-- The productions of definitions keep what their numbers mean. -/
theorem Definitions.sound (distinct : definitions.Distinct) (of : rules.Of definitions)
    (formed : ∀ definition ∈ definitions, definition.2.Formed) {others : Definitions} {counter : ℕ}
    (within : ∀ definition ∈ others, definition ∈ definitions)
    (placed : ∀ index item, others.makes[index]? = some item → definitions.makes[counter + index]? = some item)
    {production : NamedProduction} (member : production ∈ others.productions counter) {word : List Input}
    (stands : Stand grammar (definitions.Stands rules.names) (spell rules.names production.body) word) :
    definitions.Stands rules.names (rules.names.idxOf production.name) word := by
  induction others generalizing counter with
  | nil => cases member
  | cons definition others ih =>
    obtain ⟨name, phrase⟩ := definition
    have defined := within _ List.mem_cons_self
    have agrees : Agrees definitions rules.names (definitions.Stands rules.names) counter phrase := by
      refine ⟨fun other refers word => stands_iff distinct of ?_ word, fun index item found word => ?_⟩
      · exact List.mem_flatMap.mpr ⟨_, defined, List.mem_cons_of_mem _ refers⟩
      · refine stands_made_iff distinct of (placed index item ?_) word
        rw [Definitions.makes, List.flatMap_cons, List.getElem?_append_left (List.getElem?_eq_some_iff.mp found).1, found]
    rw [Definitions.productions, List.mem_append, List.mem_append] at member
    rcases member with (member | member) | member
    · exact productions_sound phrase (formed _ defined) agrees member stands
    · obtain ⟨body, among, rfl⟩ := List.mem_map.mp member
      rw [stands_iff distinct of (List.mem_flatMap.mpr ⟨_, defined, List.mem_cons_self⟩)]
      exact .name defined (means_of_bodies phrase agrees among stands)
    · refine ih (fun definition among => within definition (List.mem_cons_of_mem _ among))
        (fun index item found => ?_) member
      rw [Nat.add_assoc]
      apply placed
      rw [Definitions.makes, List.flatMap_cons, List.getElem?_append_right (Nat.le_add_right _ _), Nat.add_sub_cancel_left]
      exact found

/-- A name that is written derives its words where no name that is made is written. -/
theorem derives_iff_means (of : rules.Of definitions) (formed : ∀ definition ∈ definitions, definition.2.Formed)
    (is : rules.grammar root = .ok grammar) (distinct : definitions.Distinct) (written : name ∈ definitions.writes)
    (word : List Input) : grammar.Derives (rules.names.idxOf name) word ↔ Means definitions (.name name) word := by
  obtain ⟨-, productions, -, -⟩ := Rules.grammar_eq is
  rw [Grammar.derives_iff]
  constructor
  · intro yields
    have keeps : ∀ rule ∈ grammar.contextFree.rules, ∀ word,
        Stand grammar (definitions.Stands rules.names) rule.output word →
          definitions.Stands rules.names rule.input word := by
      intro rule member word stands
      obtain ⟨production, among, rfl⟩ := List.mem_map.mp (List.mem_toFinset.mp member)
      rw [productions, of.productions_eq, List.mem_append, List.mem_singleton] at among
      rcases among with among | rfl
      · obtain ⟨named, inside, rfl⟩ := List.mem_map.mp among
        exact Definitions.sound distinct of formed (fun _ => id) (fun index item found =>
          by rwa [Nat.zero_add]) inside stands
      · intro other known same
        exact absurd same (Nat.ne_of_lt (List.idxOf_lt_length_of_mem known))
    have stands := Yields.interprets keeps yields
    exact (stands_iff distinct of written word).mp (interprets_rule_iff.mp stands)
  · intro means
    have all : Among grammar rules.names (definitions.productions 0) := by
      intro production member
      refine List.mem_toFinset.mpr (List.mem_map_of_mem ?_)
      rw [productions, of.productions_eq]
      exact List.mem_append_left _ (List.mem_map_of_mem member)
    obtain ⟨body, member, gives⟩ := gives_of_means means all 0 nofun
    obtain rfl := Phrase.body_of_mem member (by nofun)
    exact gives

/-- A text's meaning is kept exactly where no name that is written is made for a rule too. -/
theorem preserves_iff (of : rules.Of definitions) (formed : ∀ definition ∈ definitions, definition.2.Formed)
    (is : rules.grammar root = .ok grammar) : Preserves definitions rules grammar ↔ definitions.Distinct := by
  refine ⟨fun preserves => distinct_of_apart of is preserves.apart,
    fun distinct => ⟨fun name written word => ?_, fun name written => ?_⟩⟩
  · exact derives_iff_means of formed is distinct written word
  · rw [countP_number of is written, Nat.add_eq_left, List.countP_eq_zero]
    intro production member same
    obtain ⟨index, small, made⟩ := (definitions.made_named 0 _).mp ⟨production, member, rfl⟩
    rw [decide_eq_true_eq] at same
    rw [Nat.zero_add, same] at made
    exact distinct name written index small made

/-- No range is empty. -/
def Tidy (references : List Reference) : Prop :=
  ∀ chars, .character chars ∈ references → ∀ range ∈ chars.ranges, range.1 ≤ range.2

theorem tidy_append {front back : List Reference} (first : Tidy front) (second : Tidy back) : Tidy (front ++ back) :=
  fun chars member => (List.mem_append.mp member).elim (first chars) (second chars)

theorem tidy_rule (name : String) : Tidy [.rule name] := fun chars member => by simp at member

theorem tidy_replicate {body : List Reference} (tidy : Tidy body) (count : ℕ) :
    Tidy (List.replicate count body).flatten := by
  intro chars member
  obtain ⟨_, among, inside⟩ := List.mem_flatten.mp member
  rw [(List.mem_replicate.mp among).2] at inside
  exact tidy chars inside

theorem tidy_body (phrase : Phrase kind) (formed : phrase.Formed) (counter : ℕ) : Tidy (phrase.body counter) := by
  induction phrase generalizing counter with
  | one | choice | empty => exact nofun
  | followed first others ih ih' => exact tidy_append (ih formed.1 _) (ih' formed.2 _)
  | once atom ih => exact ih formed counter
  | repeated | group | name => exact tidy_rule _
  | literal characters =>
    intro chars member range inside
    obtain ⟨character, -, same⟩ := List.mem_map.mp member
    cases same
    rw [List.mem_singleton.mp inside]
  | characterClass inverted ranges =>
    intro chars member range inside
    cases List.mem_singleton.mp member
    obtain ⟨pair, among, rfl⟩ := List.mem_map.mp inside
    exact formed pair among
  | any =>
    intro chars member range inside
    cases List.mem_singleton.mp member
    cases inside
  | token => exact fun chars member => by simp [Phrase.body] at member

theorem tidy_bodies (phrase : Phrase kind) (formed : phrase.Formed) (counter : ℕ) :
    ∀ body ∈ phrase.bodies counter, Tidy body := by
  induction phrase generalizing counter with
  | one only => exact List.forall_mem_singleton.mpr (tidy_body only formed counter)
  | choice first others _ ih => exact List.forall_mem_cons.mpr ⟨tidy_body first formed.1 counter, ih formed.2 _⟩
  | _ => exact List.forall_mem_singleton.mpr (tidy_body _ formed counter)

theorem tidy_repeat {body : List Reference} (tidy : Tidy body) (minimum : ℕ) (maximum : Option ℕ) (counter : ℕ) :
    ∀ production ∈ repeatProductions body minimum maximum counter, Tidy production.body := by
  have tails : ∀ {optional index : ℕ}, ∀ production ∈ tailProductions body optional index, Tidy production.body := by
    intro optional
    induction optional with
    | zero => nofun
    | succ optional ih =>
      intro index
      refine List.forall_mem_cons.mpr ⟨nofun, List.forall_mem_cons.mpr ⟨?_, ih⟩⟩
      dsimp only
      split
      · exact tidy_append tidy (tidy_rule _)
      · exact tidy
  have required := tidy_replicate tidy minimum
  cases maximum with
  | none =>
    exact List.forall_mem_cons.mpr ⟨nofun, List.forall_mem_cons.mpr ⟨tidy_append tidy (tidy_rule _),
      List.forall_mem_singleton.mpr (tidy_append required (tidy_rule _))⟩⟩
  | some most =>
    refine List.forall_mem_append.mpr ⟨tails, List.forall_mem_singleton.mpr ?_⟩
    dsimp only
    split
    · exact tidy_append required (tidy_rule _)
    · exact required

theorem tidy_productions (phrase : Phrase kind) (formed : phrase.Formed) (counter : ℕ) :
    ∀ production ∈ phrase.productions counter, Tidy production.body := by
  induction phrase generalizing counter with
  | choice first others ih ih' | followed first others ih ih' =>
    exact List.forall_mem_append.mpr ⟨ih formed.1 _, ih' formed.2 _⟩
  | one only ih | once atom ih => exact ih formed counter
  | repeated atom minimum maximum ih =>
    exact List.forall_mem_append.mpr ⟨ih formed.1 _, tidy_repeat (tidy_body atom formed.1 counter) _ _ _⟩
  | group alternatives ih =>
    refine List.forall_mem_append.mpr ⟨ih formed _, List.forall_mem_map.mpr ?_⟩
    exact tidy_bodies alternatives formed counter
  | empty | literal | characterClass | any | token | name => exact nofun

theorem tidy_definitions (formed : ∀ definition ∈ definitions, definition.2.Formed) (counter : ℕ) :
    ∀ production ∈ definitions.productions counter, Tidy production.body := by
  induction definitions generalizing counter with
  | nil => exact nofun
  | cons definition definitions ih =>
    have here := formed definition List.mem_cons_self
    refine List.forall_mem_append.mpr ⟨List.forall_mem_append.mpr ⟨tidy_productions _ here counter,
      List.forall_mem_map.mpr ?_⟩, ?_⟩
    · exact tidy_bodies definition.2 here counter
    · exact ih (fun other member => formed other (List.mem_cons_of_mem _ member)) _

/-- The start production stands for the rule that is the root. -/
theorem Rules.grammar_last (is : rules.grammar root = .ok grammar) :
    grammar.production grammar.startProduction = ⟨rules.names.length, [.rule (rules.names.idxOf root)]⟩ := by
  obtain ⟨-, productions, -, start⟩ := Rules.grammar_eq is
  rw [Grammar.production, productions, start, List.getD_append_right _ _ _ _ le_rfl, Nat.sub_self]
  rfl

theorem Rules.grammar_root (is : rules.grammar root = .ok grammar) : grammar.root = rules.names.idxOf root := by
  rw [Grammar.root, Rules.grammar_last is]

/-- A grammar of rules has what a matcher relies on. -/
theorem Rules.Of.formed (of : rules.Of definitions) (formed : ∀ definition ∈ definitions, definition.2.Formed)
    (is : rules.grammar root = .ok grammar) : grammar.Formed := by
  obtain ⟨known, productions, byLhs, start⟩ := Rules.grammar_eq is
  have length : grammar.productions.length = rules.productions.length + 1 := by rw [productions, List.length_append]; rfl
  have last := Rules.grammar_last is
  have early : ∀ production ∈ rules.productions, production.lhs < rules.names.length := by
    intro production member
    rw [of.productions_eq] at member
    obtain ⟨named, inside, rfl⟩ := List.mem_map.mp member
    exact List.idxOf_lt_length_of_mem (of.known named inside).1
  have lhs_le : ∀ production ∈ grammar.productions, production.lhs ≤ rules.names.length := by
    intro production member
    rw [productions, List.mem_append, List.mem_singleton] at member
    rcases member with member | rfl
    · exact (early production member).le
    · exact le_rfl
  refine ⟨by rw [start, length]; exact Nat.lt_succ_self _, ?_, fun production member same => ?_, fun rule index => ?_,
    fun production member => ?_⟩
  · rw [Grammar.root, last]
  · rw [last] at same ⊢
    rw [productions, List.mem_append, List.mem_singleton] at member
    rcases member with member | rfl
    · exact absurd same (Nat.ne_of_lt (early production member))
    · rfl
  · rw [byLhs]
    by_cases inside : rule < rules.names.length + 1
    · rw [List.getD_eq_getElem _ _ (by rwa [List.length_map, List.length_range]), List.getElem_map, List.getElem_range,
        List.mem_filter, List.mem_range, decide_eq_true_eq]
      rfl
    · rw [List.getD_eq_default _ _ (by rw [List.length_map, List.length_range]; exact Nat.not_lt.mp inside)]
      refine iff_of_false List.not_mem_nil fun ⟨short, same⟩ => ?_
      rw [Grammar.production, List.getD_eq_getElem _ _ short] at same
      have within := lhs_le _ (List.getElem_mem short)
      lia
  · rw [productions, List.mem_append, List.mem_singleton] at member
    rcases member with member | rfl
    · rw [of.productions_eq] at member
      obtain ⟨named, inside, rfl⟩ := List.mem_map.mp member
      intro chars among
      refine tidy_definitions formed 0 named inside chars ?_
      obtain ⟨reference, refers, is⟩ := List.mem_map.mp among
      cases reference <;> cases is
      exact refers
    · intro chars among
      simp at among

end Lowered

end Muser.Gbnf
