import Muser.Gbnf.Numbering

/-! # Lowering keeps the language

The productions of a phrase derive the phrase's words. That they derive all of them holds whatever else
the grammar has; that they derive no others asks that no name that is made for a rule is written too.
-/

namespace Muser.Gbnf

open ContextFree

/-- A string of symbols of the context-free grammar, from references by name. -/
def spell (names : List String) (references : List Reference) : List (CfSymbol Terminal ℕ) :=
  (references.map (Reference.number names)).map Symbol.toCf

section Terminals

variable {definitions : Definitions} {inverted : Bool} {ranges : List (Char × Char)} {character other : Char} {input : Input}
  {terminal : TokenTerminal} {token : UInt32} {bytes : Bytes}

theorem reads_one : (Terminal.character (.one character.toNat)).Reads input ↔ input = .character character := by
  cases input with
  | character read =>
    rw [Terminal.Reads, CharSet.matches_one, Input.character.injEq]
    exact Char.toNat_inj
  | token => simp [Terminal.Reads]

theorem matches_class : CharSet.matches ⟨inverted,
    ranges.map fun range => (range.1.toNat, range.2.toNat)⟩ character.toNat = true ↔
    ((∃ range ∈ ranges, range.1 ≤ character ∧ character ≤ range.2) ↔ inverted = false) := by
  have within : ((ranges.map fun range => (range.1.toNat, range.2.toNat)).any fun range =>
      range.1 ≤ character.toNat && character.toNat ≤ range.2) = true ↔
      ∃ range ∈ ranges, range.1 ≤ character ∧ character ≤ range.2 := by
    simp only [List.any_map, List.any_eq_true, Function.comp_apply, Bool.and_eq_true, decide_eq_true_eq]
    rfl
  rw [CharSet.matches, bne_iff_ne, ← within]
  cases inverted <;> simp

theorem matches_token : terminal.matches token bytes = true ↔
    ((terminal.value = .id token ∨ terminal.value = .piece bytes) ↔ terminal.inverted = false) := by
  obtain ⟨inverted, value⟩ := terminal
  cases value with
  | id expected => cases inverted <;> simp [TokenTerminal.matches, @eq_comm _ token]
  | piece expected => cases inverted <;> simp [TokenTerminal.matches, @eq_comm _ bytes]

end Terminals

section Sound

variable {grammar : Grammar} {definitions : Definitions} {names : List String} {meaning : ℕ → List Input → Prop}
  {kind : Kind} {word : List Input} {counter : ℕ}

variable (grammar) in
/-- The words of a string of symbols, by a meaning for each number. -/
abbrev Stand (meaning : ℕ → List Input → Prop) (symbols : List (CfSymbol Terminal ℕ)) (word : List Input) : Prop :=
  Interprets grammar.contextFree Terminal.Reads meaning symbols word

/-- A meaning for each number says of a phrase's rules, and of the names in it, what they stand for. -/
structure Agrees (definitions : Definitions) (names : List String) (meaning : ℕ → List Input → Prop) (counter : ℕ)
    (phrase : Phrase kind) : Prop where
  refers : ∀ name ∈ phrase.refers, ∀ word, meaning (names.idxOf name) word ↔ Means definitions (.name name) word
  makes : ∀ index item, phrase.makes[index]? = some item →
    ∀ word, meaning (names.idxOf (generatedName (counter + index))) word ↔ Means definitions item word

variable {phrase : Phrase kind} {body : List Reference} {production : NamedProduction}

theorem Agrees.left {kind₁ : Kind} {first : Phrase kind₁}
    (agrees : Agrees definitions names meaning counter phrase) (refers : first.refers ⊆ phrase.refers)
    (makes : first.makes <+: phrase.makes) : Agrees definitions names meaning counter first := by
  refine ⟨fun name member => agrees.refers name (refers member), fun index item is => agrees.makes index item ?_⟩
  obtain ⟨more, whole⟩ := makes
  rw [← whole, List.getElem?_append_left (List.getElem?_eq_some_iff.mp is).1, is]

theorem Agrees.right {kind₁ kind₂ : Kind} {first : Phrase kind₁} {others : Phrase kind₂}
    (agrees : Agrees definitions names meaning counter phrase) (refers : phrase.refers = first.refers ++ others.refers)
    (makes : phrase.makes = first.makes ++ others.makes) :
    Agrees definitions names meaning (counter + first.makes.length) others := by
  refine ⟨fun name member => agrees.refers name (refers ▸ List.mem_append_right _ member), fun index item is => ?_⟩
  rw [Nat.add_assoc]
  apply agrees.makes
  rw [makes, List.getElem?_append_right (Nat.le_add_right _ _), Nat.add_sub_cancel_left, is]

theorem stand_rule_iff {name : String} : Stand grammar meaning (spell names [.rule name]) word ↔
    meaning (names.idxOf name) word :=
  interprets_rule_iff

theorem stand_append (front back : List Reference) (stands : Stand grammar meaning (spell names (front ++ back)) word) :
    ∃ first second, word = first ++ second ∧ Stand grammar meaning (spell names front) first ∧
      Stand grammar meaning (spell names back) second := by
  rw [spell, List.map_append, List.map_append] at stands
  exact stands.split

theorem means_literal {characters : List Char}
    (stands : Stand grammar meaning (spell names (characters.map fun character => .character (.one character.toNat))) word) :
    word = characters.map .character := by
  induction characters generalizing word with
  | nil =>
    exact stands.of_nil
  | cons character characters ih =>
    obtain ⟨input, rest, rfl, reading, stands⟩ := stands.of_terminal
    rw [reads_one.mp reading, ih stands, List.map_cons]

/-- A terminal by itself reads one input. -/
theorem reads_of_stand {terminal : Terminal} (stands : Stand grammar meaning [.terminal terminal] word) :
    ∃ input, word = [input] ∧ terminal.Reads input := by
  obtain ⟨input, rest, rfl, reading, more⟩ := stands.of_terminal
  exact ⟨input, by rw [more.of_nil], reading⟩

/-- What stands for a phrase that is no choice has the phrase's words only. -/
theorem means_of_stand (phrase : Phrase kind) (agrees : Agrees definitions names meaning counter phrase)
    (one : kind ≠ .alternatives)
    (stands : Stand grammar meaning (spell names (phrase.body counter)) word) : Means definitions phrase word := by
  induction phrase generalizing counter word with
  | one | choice => exact absurd rfl one
  | empty =>
    rw [stands.of_nil]
    exact .empty
  | followed first others ih ih' =>
    obtain ⟨front, back, rfl, before, behind⟩ := stand_append _ _ stands
    exact .followed (ih (agrees.left (List.subset_append_left _ _) (List.prefix_append _ _)) nofun before)
      (ih' (agrees.right rfl rfl) nofun behind)
  | once atom ih => exact .once (ih ⟨agrees.refers, agrees.makes⟩ nofun stands)
  | repeated atom minimum maximum =>
    refine (agrees.makes atom.makes.length _ ?_ word).mp (stand_rule_iff.mp stands)
    cases maximum <;> simp [Phrase.makes]
  | literal characters =>
    rw [means_literal stands]
    exact .literal
  | characterClass inverted ranges =>
    obtain ⟨input, rfl, reading⟩ := reads_of_stand stands
    cases input with
    | character character => exact .characterClass (matches_class.mp reading)
    | token => cases reading
  | any =>
    obtain ⟨input, rfl, reading⟩ := reads_of_stand stands
    cases input with
    | character character => exact .any
    | token => cases reading
  | group alternatives =>
    have made : (Phrase.group alternatives).makes[alternatives.makes.length]? = some (.once (.group alternatives)) := by
      simp [Phrase.makes]
    cases (agrees.makes _ _ made word).mp (stand_rule_iff.mp stands) with
    | once inside => exact inside
  | token terminal =>
    obtain ⟨input, rfl, reading⟩ := reads_of_stand stands
    cases input with
    | character => cases reading
    | token token bytes => exact .token (matches_token.mp reading)
  | name name => exact (agrees.refers name (by simp [Phrase.refers]) word).mp (stand_rule_iff.mp stands)

theorem Phrase.bodies_of_ne (phrase : Phrase kind) (one : kind ≠ .alternatives) :
    phrase.bodies counter = [phrase.body counter] := by
  cases phrase <;> first | rfl | exact absurd rfl one

theorem Phrase.body_of_mem (member : body ∈ phrase.bodies counter)
    (one : kind ≠ .alternatives) : body = phrase.body counter := by
  rwa [phrase.bodies_of_ne one, List.mem_singleton] at member

/-- What stands for one of the alternatives has their words only. -/
theorem means_of_bodies (phrase : Phrase kind) (agrees : Agrees definitions names meaning counter phrase)
    (member : body ∈ phrase.bodies counter) (stands : Stand grammar meaning (spell names body) word) :
    Means definitions phrase word := by
  by_cases one : kind = .alternatives
  · induction phrase generalizing counter with
    | one only =>
      rw [Phrase.bodies, List.mem_singleton] at member
      subst member
      exact .one (means_of_stand only ⟨agrees.refers, agrees.makes⟩ nofun stands)
    | choice first others _ ih =>
      rw [Phrase.bodies, List.mem_cons] at member
      rcases member with rfl | member
      · exact .first (means_of_stand first (agrees.left (List.subset_append_left _ _) (List.prefix_append _ _)) nofun stands)
      · exact .others (ih (agrees.right rfl rfl) member rfl)
    | _ => cases one
  · obtain rfl := Phrase.body_of_mem member one
    exact means_of_stand phrase agrees one stands

theorem stand_replicate {atom : Phrase .atom} {count : ℕ}
    (sound : ∀ word, Stand grammar meaning (spell names body) word → Means definitions atom word)
    (stands : Stand grammar meaning (spell names (List.replicate count body).flatten) word) :
    ∃ words : List (List Input), words.length = count ∧ (∀ word ∈ words, Means definitions atom word) ∧
      word = words.flatten := by
  induction count generalizing word with
  | zero => exact ⟨[], rfl, nofun, stands.of_nil⟩
  | succ count ih =>
    rw [List.replicate_succ, List.flatten_cons] at stands
    obtain ⟨first, rest, rfl, before, behind⟩ := stand_append _ _ stands
    obtain ⟨words, rfl, each, rfl⟩ := ih behind
    exact ⟨first :: words, rfl, List.forall_mem_cons.mpr ⟨sound _ before, each⟩, rfl⟩

/-- The productions of a chain of tails have the words of up to so many bodies. -/
theorem tailProductions_sound {atom : Phrase .atom} {optional index : ℕ}
    (sound : ∀ word, Stand grammar meaning (spell names body) word → Means definitions atom word)
    (tails : ∀ behind < optional, ∀ word, meaning (names.idxOf (generatedName (index + behind))) word ↔
      Means definitions (.repeated atom 0 (some (optional - behind))) word)
    (member : production ∈ tailProductions body optional index)
    (stands : Stand grammar meaning (spell names production.body) word) : meaning (names.idxOf production.name) word := by
  induction optional generalizing index with
  | zero => cases member
  | succ optional ih =>
    have here := tails 0 (Nat.succ_pos optional)
    rw [Nat.add_zero, Nat.sub_zero] at here
    rw [tailProductions, List.mem_cons, List.mem_cons] at member
    rcases member with rfl | rfl | member
    · rw [here, stands.of_nil]
      exact .repeated [] (List.forall_mem_nil _) (Nat.zero_le _) fun most _ => Nat.zero_le _
    · rw [here]
      dsimp only at stands
      split at stands
      · next more =>
        obtain ⟨first, rest, rfl, before, behind⟩ := stand_append _ _ stands
        have next := (tails 1 (by lia) rest).mp (stand_rule_iff.mp behind)
        cases next with
        | repeated words each enough few =>
          refine .repeated (first :: words) (List.forall_mem_cons.mpr ⟨sound _ before, each⟩) (Nat.zero_le _)
            fun most same => ?_
          have short := few _ rfl
          cases same
          rw [List.length_cons]
          lia
      · next last =>
        rw [← List.append_nil word]
        refine .repeated [word] (List.forall_mem_singleton.mpr (sound _ stands)) (Nat.zero_le _) fun most same => ?_
        cases same
        exact Nat.succ_le_succ (Nat.zero_le _)
    · refine ih (fun behind small word => ?_) member
      have shifted := tails (behind + 1) (by lia) word
      rw [Nat.add_sub_add_right] at shifted
      rw [← shifted, Nat.add_assoc, Nat.add_comm 1]

/-- The productions of a repetition have the words of its bodies, as many as its bounds say. -/
theorem repeatProductions_sound {atom : Phrase .atom} {minimum : ℕ} {maximum : Option ℕ}
    (sound : ∀ word, Stand grammar meaning (spell names body) word → Means definitions atom word)
    (bounds : InBounds minimum maximum)
    (here : ∀ word, meaning (names.idxOf (generatedName counter)) word ↔
      Means definitions (.repeated atom minimum maximum) word)
    (tails : ∀ most, maximum = some most → ∀ behind < most - minimum, ∀ word,
      meaning (names.idxOf (generatedName (counter + 1 + behind))) word ↔
        Means definitions (.repeated atom 0 (some (most - minimum - behind))) word)
    (loop : maximum = none → ∀ word, meaning (names.idxOf (generatedName (counter + 1))) word ↔
      Means definitions (.repeated atom 0 none) word)
    (member : production ∈ repeatProductions body minimum maximum counter)
    (stands : Stand grammar meaning (spell names production.body) word) : meaning (names.idxOf production.name) word := by
  -- The bodies that are required, and a tail with more of them.
  have whole : ∀ {tail : String} {most : Option ℕ},
    (∀ word, meaning (names.idxOf tail) word → Means definitions (.repeated atom 0 most) word) →
      (∀ top, maximum = some top → ∃ more, most = some more ∧ minimum + more ≤ top) →
      Stand grammar meaning (spell names ((List.replicate minimum body).flatten ++ [.rule tail])) word →
      Means definitions (.repeated atom minimum maximum) word := by
    intro tail most tail_ fits stands
    obtain ⟨first, rest, rfl, before, behind⟩ := stand_append _ _ stands
    obtain ⟨words, length, each, rfl⟩ := stand_replicate sound before
    cases tail_ rest (stand_rule_iff.mp behind) with
    | repeated others each' _ few =>
      rw [← List.flatten_append]
      refine .repeated _ (List.forall_mem_append.mpr ⟨each, each'⟩) ?_ fun top same => ?_
      · rw [List.length_append, length]
        exact Nat.le_add_right _ _
      · obtain ⟨more, rfl, small⟩ := fits top same
        have short := few more rfl
        rw [List.length_append, length]
        lia
  cases maximum with
  | none =>
    have loops := loop rfl
    rw [repeatProductions, List.mem_cons, List.mem_cons, List.mem_singleton] at member
    rcases member with rfl | rfl | rfl
    · rw [loops, stands.of_nil]
      exact .repeated [] (List.forall_mem_nil _) (Nat.zero_le _) no_maximum
    · obtain ⟨first, rest, rfl, before, behind⟩ := stand_append _ _ stands
      rw [loops]
      cases (loops rest).mp (stand_rule_iff.mp behind) with
      | repeated words each _ _ =>
        exact .repeated (first :: words) (List.forall_mem_cons.mpr ⟨sound _ before, each⟩) (Nat.zero_le _) no_maximum
    · rw [here]
      exact whole (fun word => (loops word).mp) no_maximum stands
  | some most =>
    have within := bounds.2 most rfl
    rw [repeatProductions, List.mem_append, List.mem_singleton] at member
    rcases member with member | rfl
    · exact tailProductions_sound sound (tails most rfl) member stands
    · rw [here]
      dsimp only at stands
      split at stands
      · next more =>
        have first := tails most rfl 0 more
        rw [Nat.add_zero, Nat.sub_zero] at first
        refine whole (fun word => (first word).mp) (fun top same => ⟨_, rfl, ?_⟩) stands
        cases same
        lia
      · obtain ⟨words, length, each, rfl⟩ := stand_replicate sound stands
        refine .repeated words each length.ge fun top same => ?_
        cases same
        lia

/-- The productions that a phrase adds keep the meaning of their names. -/
theorem productions_sound (phrase : Phrase kind) (formed : phrase.Formed)
    (agrees : Agrees definitions names meaning counter phrase)
    (member : production ∈ phrase.productions counter)
    (stands : Stand grammar meaning (spell names production.body) word) : meaning (names.idxOf production.name) word := by
  induction phrase generalizing counter with
  | choice first others ih ih' | followed first others ih ih' =>
    rcases List.mem_append.mp member with member | member
    · exact ih formed.1 (agrees.left (List.subset_append_left _ _) (List.prefix_append _ _)) member
    · exact ih' formed.2 (agrees.right rfl rfl) member
  | one only ih | once atom ih => exact ih formed ⟨agrees.refers, agrees.makes⟩ member
  | repeated atom minimum maximum ih =>
    have inner : Agrees definitions names meaning counter atom := by
      refine agrees.left (List.Subset.refl _) ?_
      cases maximum <;> exact List.prefix_append _ _
    rcases List.mem_append.mp member with member | member
    · exact ih formed.1 inner member
    · refine repeatProductions_sound (fun word => means_of_stand atom inner nofun) formed.2 ?_ ?_ ?_ member stands
      · refine agrees.makes atom.makes.length _ ?_
        cases maximum <;> simp [Phrase.makes]
      · rintro most rfl behind small word
        rw [Nat.add_assoc, Nat.add_assoc]
        refine agrees.makes (atom.makes.length + (1 + behind)) _ ?_ word
        rw [Phrase.makes, List.getElem?_append_right (Nat.le_add_right _ _), Nat.add_sub_cancel_left, Nat.add_comm 1,
          List.getElem?_cons_succ, List.getElem?_map, List.getElem?_range small]
        rfl
      · rintro rfl word
        rw [Nat.add_assoc]
        refine agrees.makes (atom.makes.length + 1) _ ?_ word
        simp [Phrase.makes]
  | group alternatives ih =>
    have inner : Agrees definitions names meaning counter alternatives :=
      agrees.left (List.Subset.refl _) (List.prefix_append _ _)
    rcases List.mem_append.mp member with member | member
    · exact ih formed inner member
    · obtain ⟨body, among, rfl⟩ := List.mem_map.mp member
      refine (agrees.makes alternatives.makes.length _ ?_ word).mpr
        (.once (.group (means_of_bodies alternatives inner among stands)))
      simp [Phrase.makes]
  | empty => cases member
  | literal => cases member
  | characterClass => cases member
  | any => cases member
  | token => cases member
  | name => cases member

end Sound

section Complete

variable {grammar : Grammar} {definitions : Definitions} {names : List String} {kind : Kind} {word front back : List Input}
  {counter : ℕ}

variable (grammar names) in
/-- The productions are among the grammar's, numbered by the names. -/
def Among (productions : List NamedProduction) : Prop :=
  ∀ production ∈ productions, (production.number names).toRule ∈ grammar.contextFree.rules

variable (grammar names) in
/-- The words of a string of references. -/
abbrev Gives (references : List Reference) (word : List Input) : Prop :=
  Yields grammar.contextFree Terminal.Reads (spell names references) word

theorem among_append {productions others : List NamedProduction} :
    Among grammar names (productions ++ others) ↔ Among grammar names productions ∧ Among grammar names others :=
  List.forall_mem_append

theorem gives_append {references others : List Reference} (left : Gives grammar names references front)
    (right : Gives grammar names others back) : Gives grammar names (references ++ others) (front ++ back) := by
  rw [Gives, spell, List.map_append, List.map_append]
  exact Yields.append left right

variable {body : List Reference} {words : List (List Input)}

variable {productions : List NamedProduction} {name : String}

/-- A name gives what one of its productions does. -/
theorem gives_rule
    (among : Among grammar names productions) (member : ⟨name, body⟩ ∈ productions) (gives : Gives grammar names body word) :
    Gives grammar names [.rule name] word := by
  rw [← List.append_nil word]
  exact Yields.nonterminal (among _ member) gives .nil

theorem gives_replicate (each : ∀ word ∈ words, Gives grammar names body word) :
    Gives grammar names (List.replicate words.length body).flatten words.flatten := by
  induction words with
  | nil => exact .nil
  | cons word words ih =>
    rw [List.length_cons, List.replicate_succ, List.flatten_cons, List.flatten_cons]
    exact gives_append (each word List.mem_cons_self) (ih fun other member => each other (List.mem_cons_of_mem _ member))

theorem gives_tail (each : ∀ word ∈ words, Gives grammar names body word)
    {optional index : ℕ} (some_ : 0 < optional) (few : words.length ≤ optional)
    (among : Among grammar names (tailProductions body optional index)) :
    Gives grammar names [.rule (generatedName index)] words.flatten := by
  induction optional generalizing index words with
  | zero => exact absurd some_ (Nat.lt_irrefl 0)
  | succ optional ih =>
    cases words with
    | nil => exact gives_rule among List.mem_cons_self .nil
    | cons word words =>
      have first := each word List.mem_cons_self
      have others := fun other member => each other (List.mem_cons_of_mem word member)
      refine gives_rule among (List.mem_cons_of_mem _ List.mem_cons_self) ?_
      rw [List.length_cons] at few
      split
      · next more =>
        refine gives_append first (ih others more (by lia) fun production member => ?_)
        exact among production (List.mem_cons_of_mem _ (List.mem_cons_of_mem _ member))
      · next last =>
        have none_ : words = [] := List.eq_nil_of_length_eq_zero (by lia)
        rw [none_, List.flatten_cons, List.flatten_nil, List.append_nil]
        exact first

theorem gives_loop {tail : String}
    (among : Among grammar names productions) (ends : ⟨tail, []⟩ ∈ productions)
    (goes : ⟨tail, body ++ [.rule tail]⟩ ∈ productions)
    (each : ∀ word ∈ words, Gives grammar names body word) :
    Gives grammar names [.rule tail] words.flatten := by
  induction words with
  | nil => exact gives_rule among ends .nil
  | cons word words ih =>
    refine gives_rule among goes (gives_append (each word List.mem_cons_self) (ih fun other member => ?_))
    exact each other (List.mem_cons_of_mem _ member)

/-- A repetition gives as many bodies as its bounds allow. -/
theorem gives_repeated (each : ∀ word ∈ words, Gives grammar names body word)
    {minimum : ℕ} {maximum : Option ℕ} (enough : minimum ≤ words.length)
    (few : ∀ most, maximum = some most → words.length ≤ most)
    (among : Among grammar names (repeatProductions body minimum maximum counter)) :
    Gives grammar names [.rule (generatedName counter)] words.flatten := by
  have required : Gives grammar names (List.replicate minimum body).flatten (words.take minimum).flatten := by
    have given : Gives grammar names (List.replicate (words.take minimum).length body).flatten
        (words.take minimum).flatten :=
      gives_replicate fun word member => each word (List.mem_of_mem_take member)
    rwa [List.length_take_of_le enough] at given
  have others : ∀ word ∈ words.drop minimum, Gives grammar names body word :=
    fun word member => each word (List.mem_of_mem_drop member)
  have whole : words.flatten = (words.take minimum).flatten ++ (words.drop minimum).flatten := by
    rw [← List.flatten_append, List.take_append_drop]
  rw [whole]
  cases maximum with
  | none =>
    have loop : Gives grammar names [.rule (generatedName (counter + 1))] (words.drop minimum).flatten := by
      refine gives_loop among ?_ ?_ others <;> simp [repeatProductions]
    exact gives_rule among (by simp [repeatProductions]) (gives_append required loop)
  | some most =>
    have small := few most rfl
    rw [repeatProductions, among_append] at among
    refine gives_rule among.2 (List.mem_singleton_self _) ?_
    split
    · next more =>
      refine gives_append required (gives_tail others more ?_ among.1)
      rw [List.length_drop]
      omega
    · next last =>
      have none_ : words.drop minimum = [] := List.drop_eq_nil_of_le (by omega)
      rw [none_, List.flatten_nil, List.append_nil]
      exact required

/-- The productions of a definition are among those of all. -/
theorem Definitions.among {alternatives : Phrase .alternatives} (defined : (name, alternatives) ∈ definitions)
    (among : Among grammar names (Definitions.productions counter definitions)) :
    ∃ start, Among grammar names (alternatives.productions start) ∧
      Among grammar names ((alternatives.bodies start).map (NamedProduction.mk name)) := by
  induction definitions generalizing counter with
  | nil => cases defined
  | cons definition definitions ih =>
    obtain ⟨other, phrase⟩ := definition
    rw [Definitions.productions, among_append, among_append] at among
    rcases List.mem_cons.mp defined with same | defined
    · cases same
      exact ⟨counter, among.1.1, among.1.2⟩
    · exact ih defined among.2

theorem gives_literal (characters : List Char) :
    Gives grammar names (characters.map fun character => .character (.one character.toNat)) (characters.map .character) := by
  induction characters with
  | nil => exact .nil
  | cons character characters ih => exact Yields.terminal (reads_one.mpr rfl) ih

/-- A phrase's words are given by its body, or by one of its bodies. -/
theorem gives_of_means {phrase : Phrase kind} (means : Means definitions phrase word)
    (all : Among grammar names (Definitions.productions 0 definitions)) (counter : ℕ)
    (among : Among grammar names (phrase.productions counter)) :
    ∃ body ∈ phrase.bodies counter, Gives grammar names body word := by
  induction means generalizing counter with
  | first _ ih =>
    obtain ⟨body, member, gives⟩ := ih counter (among_append.mp among).1
    obtain rfl := Phrase.body_of_mem member (by nofun)
    exact ⟨_, List.mem_cons_self, gives⟩
  | others _ ih =>
    obtain ⟨body, member, gives⟩ := ih _ (among_append.mp among).2
    exact ⟨body, List.mem_cons_of_mem _ member, gives⟩
  | empty => exact ⟨[], List.mem_singleton_self _, .nil⟩
  | followed _ _ ih ih' =>
    obtain ⟨body, member, gives⟩ := ih counter (among_append.mp among).1
    obtain ⟨body', member', gives'⟩ := ih' _ (among_append.mp among).2
    obtain rfl := Phrase.body_of_mem member (by nofun)
    obtain rfl := Phrase.body_of_mem member' (by nofun)
    exact ⟨_, List.mem_singleton_self _, gives_append gives gives'⟩
  | one _ ih | once _ ih =>
    obtain ⟨body, member, gives⟩ := ih counter among
    obtain rfl := Phrase.body_of_mem member (by nofun)
    exact ⟨_, List.mem_singleton_self _, gives⟩
  | repeated words _ enough few ih =>
    refine ⟨_, List.mem_singleton_self _, gives_repeated (fun word inside => ?_) enough few (among_append.mp among).2⟩
    obtain ⟨body, member, gives⟩ := ih word inside counter (among_append.mp among).1
    obtain rfl := Phrase.body_of_mem member (by nofun)
    exact gives
  | literal => exact ⟨_, List.mem_singleton_self _, gives_literal _⟩
  | characterClass inside =>
    refine ⟨_, List.mem_singleton_self _, Yields.terminal (?_ : Terminal.Reads (.character _) _) .nil⟩
    exact matches_class.mpr inside
  | any =>
    refine ⟨_, List.mem_singleton_self _, Yields.terminal (?_ : Terminal.Reads (.character _) _) .nil⟩
    rfl
  | group _ ih =>
    obtain ⟨body, member, gives⟩ := ih counter (among_append.mp among).1
    exact ⟨_, List.mem_singleton_self _, gives_rule (among_append.mp among).2 (List.mem_map_of_mem member) gives⟩
  | token matching =>
    refine ⟨_, List.mem_singleton_self _, Yields.terminal (?_ : Terminal.Reads (.token _) _) .nil⟩
    exact matches_token.mpr matching
  | name defined _ ih =>
    obtain ⟨start, inside, bodies⟩ := Definitions.among defined all
    obtain ⟨body, member, gives⟩ := ih start inside
    exact ⟨_, List.mem_singleton_self _, gives_rule bodies (List.mem_map_of_mem member) gives⟩

end Complete

end Muser.Gbnf
