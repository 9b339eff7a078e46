import Muser.Gbnf.Phrase

/-! # Numbered productions

The parser's rules carry numbers, which a name keeps once it has one. What it adds to its rules for a
phrase are the phrase's productions by name, numbered by the names it knows afterwards.
-/

namespace Muser.Gbnf

def Reference.rule? : Reference → Option String
  | .rule name => some name
  | _ => none

/-- The names a string of symbols refers to. -/
def mentions (references : List Reference) : List String := references.filterMap Reference.rule?

theorem mentions_append (front back : List Reference) : mentions (front ++ back) = mentions front ++ mentions back :=
  List.filterMap_append

theorem mem_mentions {references : List Reference} {name : String} : name ∈ mentions references ↔
    .rule name ∈ references := by
  rw [mentions, List.mem_filterMap]
  constructor
  · rintro ⟨reference, member, is⟩
    cases reference with
    | rule other =>
      cases is
      exact member
    | character | token => cases is
  · exact fun member => ⟨_, member, rfl⟩

/-- A string of symbols refers to known names only. -/
def Knows (names : List String) (references : List Reference) : Prop := ∀ name ∈ mentions references, name ∈ names

section Names

variable {names more : List String} {references front back : List Reference}

theorem knows_nil : Knows names [] := nofun

theorem knows_append : Knows names (front ++ back) ↔ Knows names front ∧ Knows names back := by
  simp only [Knows, mentions_append, List.forall_mem_append]

theorem knows_rule {name : String} (known : name ∈ names) : Knows names [.rule name] := by
  intro other member
  rw [List.mem_singleton.mp member]
  exact known

theorem Knows.mono (knows : Knows names references) (grows : names <+: more) : Knows more references :=
  fun name member => grows.subset (knows name member)

theorem idxOf_of_grows {name : String} (known : name ∈ names) (grows : names <+: more) :
    more.idxOf name = names.idxOf name := by
  obtain ⟨others, rfl⟩ := grows
  exact List.idxOf_append_of_mem known

/-- A name keeps its number. -/
theorem number_of_grows (knows : Knows names references) (grows : names <+: more) :
    references.map (Reference.number more) = references.map (Reference.number names) := by
  apply List.map_congr_left
  intro reference member
  cases reference with
  | rule name => exact congrArg Symbol.rule (idxOf_of_grows (knows name (mem_mentions.mpr member)) grows)
  | character | token => rfl

end Names

/-- A production's names are known. -/
def NamedProduction.Known (names : List String) (production : NamedProduction) : Prop :=
  production.name ∈ names ∧ Knows names production.body

variable {production : NamedProduction} {names more : List String}

theorem NamedProduction.Known.mono (known : production.Known names)
    (grows : names <+: more) : production.Known more := ⟨grows.subset known.1, known.2.mono grows⟩

theorem NamedProduction.Known.number_of_grows
    (known : production.Known names) (grows : names <+: more) : production.number more = production.number names := by
  rw [NamedProduction.number, NamedProduction.number, idxOf_of_grows known.1 grows,
    Gbnf.number_of_grows known.2 grows]

/-- Rules after productions were added to them, some names were made and some were met. -/
structure Lowers (before after : Rules) (added : List NamedProduction) (made : ℕ) (met : List String) : Prop where
  generated : after.generated = before.generated + made
  grows : before.names <+: after.names
  nodup : before.names.Nodup → after.names.Nodup
  members : ∀ name, name ∈ after.names ↔
    name ∈ before.names ∨ name ∈ met ∨ ∃ index < made, name = generatedName (before.generated + index)
  productions : after.productions = before.productions ++ added.map (NamedProduction.number after.names)
  known : ∀ production ∈ added, production.Known after.names

section Lowers

variable {before middle after : Rules} {productions others : List NamedProduction} {made more : ℕ}
  {met further : List String}

theorem Lowers.refl (rules : Rules) : Lowers rules rules [] 0 [] :=
  ⟨rfl, List.prefix_rfl, id, by simp, by simp, nofun⟩

theorem Lowers.trans (first : Lowers before middle productions made met) (second : Lowers middle after others more further) :
    Lowers before after (productions ++ others) (made + more) (met ++ further) := by
  refine ⟨?_, first.grows.trans second.grows, fun nodup => second.nodup (first.nodup nodup), fun name => ?_, ?_, ?_⟩
  · rw [second.generated, first.generated, Nat.add_assoc]
  · rw [second.members, first.members, first.generated, List.mem_append]
    constructor
    · rintro ((known | member | ⟨index, small, is⟩) | member | ⟨index, small, is⟩)
      · exact .inl known
      · exact .inr (.inl (.inl member))
      · exact .inr (.inr ⟨index, by omega, is⟩)
      · exact .inr (.inl (.inr member))
      · exact .inr (.inr ⟨made + index, by omega, by rw [is, Nat.add_assoc]⟩)
    · rintro (known | (member | member) | ⟨index, small, is⟩)
      · exact .inl (.inl known)
      · exact .inl (.inr (.inl member))
      · exact .inr (.inl member)
      · by_cases early : index < made
        · exact .inl (.inr (.inr ⟨index, early, is⟩))
        · exact .inr (.inr ⟨index - made, by omega, by rw [is]; congr 1; omega⟩)
  · have same : productions.map (NamedProduction.number after.names) =
        productions.map (NamedProduction.number middle.names) :=
      List.map_congr_left fun production member => (first.known production member).number_of_grows second.grows
    rw [second.productions, first.productions, List.map_append, same, List.append_assoc]
  · intro production member
    rcases List.mem_append.mp member with member | member
    · exact (first.known production member).mono second.grows
    · exact second.known production member

/-- The number of a known name. -/
def Rules.Numbers (rules : Rules) (name : String) (number : ℕ) : Prop :=
  name ∈ rules.names ∧ number = rules.names.idxOf name

variable {name : String} {number : ℕ} {body : List Reference}

theorem Rules.Numbers.mono (numbers : before.Numbers name number)
    (lowers : Lowers before after productions made met) : after.Numbers name number :=
  ⟨lowers.grows.subset numbers.1, numbers.2.trans (idxOf_of_grows numbers.1 lowers.grows).symm⟩

theorem Rules.ruleId_lowers (rules : Rules) (name : String) :
    Lowers rules (rules.ruleId name).2 [] 0 [name] ∧ (rules.ruleId name).2.Numbers name (rules.ruleId name).1 := by
  rw [Rules.ruleId]
  split
  · next known =>
    refine ⟨⟨rfl, List.prefix_rfl, id, fun other => ?_, by simp, nofun⟩, known, rfl⟩
    simp only [List.mem_singleton, Nat.not_lt_zero, false_and, exists_const, or_false]
    exact ⟨.inl, fun either => either.elim id fun same => same ▸ known⟩
  · next new =>
    refine ⟨⟨rfl, List.prefix_append _ _, fun nodup => ?_, fun other => ?_, by simp, nofun⟩, by simp, ?_⟩
    · exact List.nodup_append'.mpr ⟨nodup, List.nodup_singleton _, by simpa [List.disjoint_singleton] using new⟩
    · simp
    · exact (List.idxOf_append_of_notMem new).symm ▸ by simp

theorem Rules.freshRule_lowers (rules : Rules) : Lowers rules rules.freshRule.2 [] 1 [] ∧
    rules.freshRule.2.Numbers (generatedName rules.generated) rules.freshRule.1 := by
  obtain ⟨lowers, numbers⟩ :=
    Rules.ruleId_lowers { rules with generated := rules.generated + 1 } (generatedName rules.generated)
  refine ⟨⟨lowers.generated, lowers.grows, lowers.nodup, fun name => ?_, lowers.productions, nofun⟩, numbers⟩
  rw [Rules.freshRule, lowers.members]
  simp

@[simp] theorem Rules.push_names (rules : Rules) (lhs : ℕ) (rhs : List Symbol) :
    (rules.push lhs rhs).names = rules.names := rfl

theorem Rules.push_lowers {rules : Rules} {production : NamedProduction} (known : production.Known rules.names) :
    Lowers rules (rules.push (rules.names.idxOf production.name) (production.body.map (Reference.number rules.names)))
      [production] 0 [] := by
  refine ⟨rfl, List.prefix_rfl, id, by simp [Rules.push], rfl, fun other member => ?_⟩
  rw [List.mem_singleton.mp member]
  exact known

/-- One more production of a known name. -/
theorem Lowers.push (lowers : Lowers before after productions made met)
    (numbers : after.Numbers name number) (knows : Knows after.names body) :
    Lowers before (after.push number (body.map (Reference.number after.names)))
      (productions ++ [⟨name, body⟩]) made met := by
  rw [numbers.2]
  have pushed := lowers.trans (@Rules.push_lowers after ⟨name, body⟩ ⟨numbers.1, knows⟩)
  rwa [Nat.add_zero, List.append_nil] at pushed

theorem Lowers.pushAll (lowers : Lowers before after productions made met)
    {bodies : List (List Reference)} (numbers : after.Numbers name number)
    (knows : ∀ body ∈ bodies, Knows after.names body) :
    Lowers before (after.pushAll number (bodies.map (List.map (Reference.number after.names))))
      (productions ++ bodies.map (NamedProduction.mk name)) made met := by
  induction bodies generalizing after productions with
  | nil =>
    rw [List.map_nil, List.map_nil, List.append_nil]
    exact lowers
  | cons body bodies ih =>
    have first := lowers.push numbers (knows body List.mem_cons_self)
    have others := ih first numbers fun other member => knows other (List.mem_cons_of_mem _ member)
    rw [List.append_assoc] at others
    exact others

theorem Rules.generatedRule_lowers {rules : Rules} {bodies : List (List Reference)}
    (knows : ∀ body ∈ bodies, Knows rules.names body) :
    Lowers rules (rules.generatedRule (bodies.map (List.map (Reference.number rules.names)))).2
      (bodies.map (NamedProduction.mk (generatedName rules.generated))) 1 [] ∧
    (rules.generatedRule (bodies.map (List.map (Reference.number rules.names)))).2.Numbers (generatedName rules.generated)
      (rules.generatedRule (bodies.map (List.map (Reference.number rules.names)))).1 := by
  obtain ⟨fresh, numbers⟩ := rules.freshRule_lowers
  have same : bodies.map (List.map (Reference.number rules.names)) =
      bodies.map (List.map (Reference.number rules.freshRule.2.names)) :=
    List.map_congr_left fun body member => (number_of_grows (knows body member) fresh.grows).symm
  rw [same]
  have pushed := fresh.pushAll numbers fun body member => (knows body member).mono fresh.grows
  refine ⟨pushed, ?_⟩
  have more := (Lowers.refl rules.freshRule.2).pushAll numbers fun body member => (knows body member).mono fresh.grows
  exact numbers.mono more

/-- A chain of tails, whose first is the rule that was made last. -/
theorem Rules.optionalTails_lowers {body : List Reference} {optional index tail : ℕ} {rules : Rules}
    (numbers : rules.Numbers (generatedName index) tail) (last : rules.generated = index + 1)
    (knows : Knows rules.names body) :
    Lowers rules (Rules.optionalTails (body.map (Reference.number rules.names)) optional tail rules)
      (tailProductions body optional index) (optional - 1) [] := by
  induction optional generalizing rules tail index with
  | zero => exact Lowers.refl rules
  | succ optional ih =>
    have empty := (Lowers.refl rules).push numbers knows_nil
    rw [Rules.optionalTails]
    dsimp only
    split
    · next more =>
      obtain ⟨fresh, next⟩ := (rules.push tail []).freshRule_lowers
      generalize (rules.push tail []).freshRule = made at fresh next
      obtain ⟨number, made⟩ := made
      dsimp only at fresh next ⊢
      rw [show (rules.push tail []).generated = index + 1 from last] at next
      have both := empty.trans fresh
      have goes : Knows made.names (body ++ [Reference.rule (generatedName (index + 1))]) :=
        knows_append.mpr ⟨knows.mono both.grows, knows_rule next.1⟩
      have pushed := both.push (numbers.mono both) goes
      rw [List.map_append, List.map_singleton, Reference.number, ← next.2] at pushed
      have rest := @ih (index + 1) number (made.push tail (body.map (Reference.number made.names) ++
        [Symbol.rule number])) next
        (by rw [← last]; exact fresh.generated) (knows.mono both.grows)
      have whole := pushed.trans rest
      rw [tailProductions, if_pos more, ← number_of_grows knows both.grows]
      have count : 0 + 1 + (optional - 1) = optional + 1 - 1 := by omega
      rw [← count]
      exact whole
    · next done =>
      obtain rfl : optional = 0 := Nat.eq_zero_of_not_pos done
      exact empty.push (numbers.mono empty) knows

/-- How many names a repetition makes. -/
def repeatCount (minimum : ℕ) : Option ℕ → ℕ
  | some maximum => 1 + (maximum - minimum)
  | none => 2

/-- How many rules a repetition makes beside those of its atom. -/
theorem Phrase.makes_repeated (atom : Phrase .atom) (minimum : ℕ) (maximum : Option ℕ) :
    (Phrase.repeated atom minimum maximum).makes.length = atom.makes.length + repeatCount minimum maximum := by
  cases maximum with
  | none => simp [Phrase.makes, repeatCount]
  | some maximum =>
    simp only [Phrase.makes, repeatCount, List.length_append, List.length_cons, List.length_map, List.length_range]
    omega

theorem repeatSymbols_number (names : List String) (body : List Reference) (count : ℕ) :
    repeatSymbols (body.map (Reference.number names)) count =
      ((List.replicate count body).flatten).map (Reference.number names) := by
  rw [repeatSymbols, List.map_flatten, List.map_replicate]

theorem knows_repeated {names : List String} (knows : Knows names body) (count : ℕ) :
    Knows names (List.replicate count body).flatten := by
  induction count with
  | zero => exact knows_nil
  | succ count ih =>
    rw [List.replicate_succ, List.flatten_cons]
    exact knows_append.mpr ⟨knows, ih⟩

theorem Rules.repeatRule_lowers {rules after : Rules} {minimum number : ℕ} {maximum : Option ℕ}
    (knows : Knows rules.names body)
    (is : rules.repeatRule (body.map (Reference.number rules.names)) minimum maximum = .ok (number, after)) :
    InBounds minimum maximum ∧
      Lowers rules after (repeatProductions body minimum maximum rules.generated) (repeatCount minimum maximum) [] ∧
      after.Numbers (generatedName rules.generated) number := by
  rw [Rules.repeatRule] at is
  split at is
  · cases is
  · next bounds =>
    have inBounds : InBounds minimum maximum := by
      refine ⟨Nat.not_le.mp fun many => bounds (.inl many), fun most same => ?_⟩
      rw [same] at bounds
      simp only [Option.any_some, Bool.or_eq_true, decide_eq_true_eq, not_or, Nat.not_lt] at bounds
      exact bounds.2
    refine ⟨inBounds, ?_⟩
    obtain ⟨fresh, named⟩ := rules.freshRule_lowers
    generalize rules.freshRule = made at fresh named is
    obtain ⟨rule, made⟩ := made
    dsimp only at fresh named is
    have next := fresh.generated
    obtain ⟨fresh', named'⟩ := made.freshRule_lowers
    rw [next] at named'
    cases maximum with
    | none =>
      dsimp only at is
      generalize made.freshRule = tail at fresh' named' is
      obtain ⟨tail, last⟩ := tail
      dsimp only at fresh' named' is
      have both := fresh.trans fresh'
      have knows' := knows.mono both.grows
      have loops := knows_append.mpr ⟨knows', knows_rule named'.1⟩
      have required := knows_append.mpr ⟨knows_repeated knows' minimum, knows_rule named'.1⟩
      have named'' : last.Numbers (generatedName rules.generated) rule := named.mono fresh'
      have done := ((both.push named' knows_nil).push named' loops).push named'' required
      simp only [Rules.push_names] at done
      rw [List.map_append, List.map_append, List.map_singleton, Reference.number, ← repeatSymbols_number,
        number_of_grows knows both.grows, ← named'.2] at done
      cases is
      exact ⟨done, named''⟩
    | some maximum =>
      dsimp only at is
      split at is
      · next more =>
        generalize made.freshRule = tail at fresh' named' is
        obtain ⟨tail, last⟩ := tail
        dsimp only at fresh' named' is
        have both := fresh.trans fresh'
        have tails := @Rules.optionalTails_lowers body (maximum - minimum) _ _ _ named' (by rw [fresh'.generated, next])
          (knows.mono both.grows)
        rw [number_of_grows knows both.grows] at tails
        generalize Rules.optionalTails (body.map (Reference.number rules.names)) (maximum - minimum) tail last =
          final at tails is
        have all := both.trans tails
        have required := knows_append.mpr ⟨knows_repeated (knows.mono all.grows) minimum, knows_rule (named'.mono tails).1⟩
        have named'' := named.mono (fresh'.trans tails)
        have done := all.push named'' required
        rw [List.map_append, List.map_singleton, Reference.number, ← repeatSymbols_number,
          number_of_grows knows all.grows, ← (named'.mono tails).2] at done
        cases is
        refine ⟨?_, named''⟩
        rw [repeatProductions, repeatCount, if_pos more,
          show 1 + (maximum - minimum) = 0 + 1 + 1 + (maximum - minimum - 1) by omega]
        exact done
      · next none_ =>
        have knows' := knows.mono fresh.grows
        have done := fresh.push named (knows_repeated knows' minimum)
        rw [← repeatSymbols_number, number_of_grows knows fresh.grows] at done
        cases is
        refine ⟨?_, named⟩
        rw [repeatProductions, repeatCount, if_neg none_, show maximum - minimum = 0 by omega]
        exact done

end Lowers

end Muser.Gbnf
