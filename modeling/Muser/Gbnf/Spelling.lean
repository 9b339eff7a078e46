import Muser.Gbnf.Lexing

/-! # A text spells one thing

What a text spells is settled by its bytes: where one relation takes them apart, no other way of taking
them apart is left, so that the definitions of a text are its own.
-/

namespace Muser.Gbnf

section Bytes

variable {rest rest' input input' : Bytes}

/-- Bytes of one sort in front of another byte are cut off in one way. -/
theorem span_unique {wanted : UInt8 → Bool} {front front' : Bytes} (each : ∀ byte ∈ front, wanted byte = true)
    (each' : ∀ byte ∈ front', wanted byte = true) (last : rest.head?.any wanted = false)
    (last' : rest'.head?.any wanted = false)
    (same : front ++ rest = front' ++ rest') : front = front' ∧ rest = rest' := by
  induction front generalizing front' with
  | nil =>
    cases front' with
    | nil => exact ⟨rfl, same⟩
    | cons byte front' =>
      obtain rfl : rest = byte :: front' ++ rest' := same
      exact absurd (each' byte List.mem_cons_self) (by simpa using last)
  | cons byte front ih =>
    cases front' with
    | nil =>
      obtain rfl : byte :: front ++ rest = rest' := same
      exact absurd (each byte List.mem_cons_self) (by simpa using last')
    | cons byte' front' =>
      injection same with first others
      obtain ⟨rfl, rfl⟩ := ih (fun byte member => each byte (List.mem_cons_of_mem _ member))
        (fun byte member => each' byte (List.mem_cons_of_mem _ member)) others
      exact ⟨by rw [first], rfl⟩

theorem negation_unique {sign : UInt8} {inverted inverted' : Bool} (plain : inverted = false → input.head? ≠ some sign)
    (plain' : inverted' = false → input'.head? ≠ some sign)
    (same : negation sign inverted ++ input = negation sign inverted' ++ input') : inverted = inverted' ∧
      input = input' := by
  cases inverted with
  | false =>
    cases inverted' with
    | false => exact ⟨rfl, same⟩
    | true =>
      obtain rfl : input = sign :: input' := same
      exact absurd rfl (plain rfl)
  | true =>
    cases inverted' with
    | false =>
      obtain rfl : sign :: input = input' := same
      exact absurd rfl (plain' rfl)
    | true => exact ⟨rfl, List.append_cancel_left same⟩

end Bytes

section Characters

variable {rest rest' input : Bytes}

variable {letter : UInt8} {character character' : Char}

theorem shortEscapes_unique (known : (letter, character) ∈ shortEscapes)
    (known' : (letter, character') ∈ shortEscapes) : character = character' := by
  have functional : ∀ one ∈ shortEscapes, ∀ other ∈ shortEscapes, one.1 = other.1 → one.2 = other.2 := by decide
  exact functional _ known _ known' rfl

theorem hexEscapes_unique {digits digits' : ℕ} (known : (letter, digits) ∈ hexEscapes)
    (known' : (letter, digits') ∈ hexEscapes) : digits = digits' := by
  have functional : ∀ one ∈ hexEscapes, ∀ other ∈ hexEscapes, one.1 = other.1 → one.2 = other.2 := by decide
  exact functional _ known _ known' rfl

theorem escapes_apart {character : Char} {digits : ℕ} (short : (letter, character) ∈ shortEscapes)
    (hex : (letter, digits) ∈ hexEscapes) : False := by
  have apart : ∀ one ∈ shortEscapes, ∀ other ∈ hexEscapes, one.1 ≠ other.1 := by decide
  exact apart _ short _ hex rfl

theorem SpelledCharacter.unique (spelled : SpelledCharacter character input rest)
    (other : SpelledCharacter character' input rest') : character = character' ∧ rest = rest' := by
  generalize same : input = whole at other
  cases spelled with
  | @plain _ _ plain =>
    cases other with
    | plain =>
      have decoded := Utf8.decode_encode character rest
      rw [same, Utf8.decode_encode] at decoded
      injection decoded with values rests
      exact ⟨(Char.toNat_inj.mp values).symm, rests.symm⟩
    | short => exact absurd (congrArg List.head? same) plain
    | hex => exact absurd (congrArg List.head? same) plain
  | short known =>
    cases other with
    | plain plain => exact absurd (congrArg List.head? same.symm) plain
    | short known' =>
      injection same with _ same
      injection same with letter same
      subst letter
      exact ⟨shortEscapes_unique known known', same⟩
    | hex known' =>
      injection same with _ same
      injection same with letter same
      subst letter
      exact (escapes_apart known known').elim
  | hex known length value =>
    cases other with
    | plain plain => exact absurd (congrArg List.head? same.symm) plain
    | short known' =>
      injection same with _ same
      injection same with letter same
      subst letter
      exact (escapes_apart known' known).elim
    | hex known' length' value' =>
      injection same with _ same
      injection same with letter same
      subst letter
      obtain ⟨rfl, rfl⟩ := List.append_inj same (by rw [length, length', hexEscapes_unique known known'])
      rw [value] at value'
      exact ⟨Char.toNat_inj.mp (Option.some.inj value'), rfl⟩

theorem SpelledLiteral.unique {characters characters' : List Char} (spelled : SpelledLiteral characters input rest)
    (other : SpelledLiteral characters' input rest') : characters = characters' ∧ rest = rest' := by
  induction spelled generalizing characters' with
  | close =>
    generalize same : quote :: _ = whole at other
    cases other with
    | close => exact ⟨rfl, (List.cons.inj same).2⟩
    | character inside => exact absurd rfl (inside quote (congrArg List.head? same.symm)).1
  | @character character others input middle rest inside first behind ih =>
    cases other with
    | close => exact absurd rfl (inside quote rfl).1
    | character _ first' behind' =>
      obtain ⟨rfl, rfl⟩ := first.unique first'
      obtain ⟨rfl, rfl⟩ := ih behind'
      exact ⟨rfl, rfl⟩

theorem SpelledRanges.unique {ranges ranges' : List (Char × Char)} (spelled : SpelledRanges ranges input rest)
    (other : SpelledRanges ranges' input rest') : ranges = ranges' ∧ rest = rest' := by
  induction spelled generalizing ranges' with
  | close =>
    generalize same : ascii ']' :: _ = whole at other
    cases other with
    | close => exact ⟨rfl, (List.cons.inj same).2⟩
    | single inside => exact absurd (congrArg List.head? same.symm) inside
    | range inside => exact absurd (congrArg List.head? same.symm) inside
  | single inside first alone behind ih =>
    cases other with
    | close => exact absurd rfl inside
    | single _ first' _ behind' =>
      obtain ⟨rfl, rfl⟩ := first.unique first'
      obtain ⟨rfl, rfl⟩ := ih behind'
      exact ⟨rfl, rfl⟩
    | range _ first' open_ =>
      obtain ⟨rfl, rfl⟩ := first.unique first'
      exact absurd open_ alone
  | range inside first open_ second ordered behind ih =>
    cases other with
    | close => exact absurd rfl inside
    | single _ first' alone =>
      obtain ⟨rfl, rfl⟩ := first.unique first'
      exact absurd open_ alone
    | range _ first' _ second' _ behind' =>
      obtain ⟨rfl, same⟩ := first.unique first'
      injection same with _ same
      subst same
      obtain ⟨rfl, rfl⟩ := second.unique second'
      obtain ⟨rfl, rfl⟩ := ih behind'
      exact ⟨rfl, rfl⟩

/-- What the sign and the bracket of a token leave starts with the other bracket, or does not. -/
theorem SpelledToken.unique {terminal terminal' : TokenTerminal} (spelled : SpelledToken terminal input rest)
    (other : SpelledToken terminal' input rest') : terminal = terminal' ∧ rest = rest' := by
  have plain : ∀ {inverted : Bool} {behind : Bytes}, inverted = false → (ascii '<' :: behind).head? ≠ some (ascii '!') :=
    fun _ is => absurd (Option.some.inj is) (by decide)
  generalize same : input = whole at other
  cases spelled with
  | @id inverted digits rest some_ each small =>
    cases other with
    | @id inverted' digits' rest' some' each' small' =>
      simp only [List.append_assoc, List.cons_append] at same
      obtain ⟨rfl, behind⟩ := negation_unique plain plain same
      simp only [List.cons.injEq, true_and] at behind
      obtain ⟨rfl, last⟩ := span_unique each each' rfl rfl behind
      simp only [List.cons.injEq, true_and] at last
      exact ⟨rfl, last⟩
    | @piece inverted' named rest' some' no_id each' =>
      simp only [List.append_assoc, List.cons_append] at same
      obtain ⟨rfl, behind⟩ := negation_unique plain plain same
      cases named with
      | nil => exact absurd rfl some'
      | cons byte named =>
        simp only [List.cons_append, List.cons.injEq, true_and] at behind
        exact absurd (congrArg some behind.1.symm) no_id
  | @piece inverted named rest some_ no_id each =>
    cases other with
    | @id inverted' digits rest' some' each' small =>
      simp only [List.append_assoc, List.cons_append] at same
      obtain ⟨rfl, behind⟩ := negation_unique plain plain same
      cases named with
      | nil => exact absurd rfl some_
      | cons byte named =>
        simp only [List.cons_append, List.cons.injEq, true_and] at behind
        exact absurd (congrArg some behind.1) no_id
    | @piece inverted' named' rest' some' no_id' each' =>
      simp only [List.append_assoc, List.cons_append] at same
      obtain ⟨rfl, behind⟩ := negation_unique plain plain same
      simp only [List.cons.injEq, true_and] at behind
      have inside : ∀ {text : Bytes}, (∀ byte ∈ text, byte ≠ ascii '>' ∧ isLineEnd byte = false) →
          ∀ byte ∈ text, (byte != ascii '>') = true :=
        fun each byte member => bne_iff_ne.mpr (each byte member).1
      obtain ⟨rfl, last⟩ := span_unique (inside each) (inside each') rfl rfl behind
      simp only [List.cons.injEq, true_and] at last
      exact ⟨rfl, last⟩

theorem Digits.unique {digits digits' : Bytes} {value value' : ℕ} (is : Digits digits value) (is' : Digits digits' value')
    (last : rest.head?.any isDigit = false) (last' : rest'.head?.any isDigit = false)
    (same : digits ++ rest = digits' ++ rest') : value = value' ∧ rest = rest' := by
  obtain ⟨-, each, rfl⟩ := is
  obtain ⟨-, each', rfl⟩ := is'
  obtain ⟨rfl, rfl⟩ := span_unique each each' last last' same
  exact ⟨rfl, rfl⟩

/-- What is between the braces: a number, and behind it the brace or a comma. -/
theorem SpelledRepetition.inside {minimum : ℕ} {maximum : Option ℕ} {behind : Bytes}
    (spelled : SpelledRepetition minimum maximum (ascii '{' :: behind) rest) :
    ∃ digits more, Digits digits minimum ∧ behind = digits ++ more ∧
      ((more = ascii '}' :: rest ∧ maximum = some minimum) ∨ (more = ascii ',' :: ascii '}' :: rest ∧ maximum = none) ∨
        ∃ digits' most, Digits digits' most ∧ more = ascii ',' :: digits' ++ ascii '}' :: rest ∧ maximum = some most) := by
  generalize same : ascii '{' :: behind = whole at spelled
  cases spelled with
  | optional | star | plus => exact absurd (List.cons.inj same).1 (by decide)
  | @exactly digits _ _ is =>
    rw [List.cons_append, List.cons.injEq] at same
    exact ⟨digits, _, is, same.2, .inl ⟨rfl, rfl⟩⟩
  | @atLeast digits _ _ is =>
    rw [List.cons_append, List.cons.injEq] at same
    exact ⟨digits, _, is, same.2, .inr (.inl ⟨rfl, rfl⟩)⟩
  | @between digits digits' _ _ most is is' =>
    rw [List.append_assoc, List.cons_append, List.cons.injEq] at same
    exact ⟨digits, _, is, same.2, .inr (.inr ⟨digits', most, is', rfl, rfl⟩)⟩

theorem Digits.head {digits behind : Bytes} {value : ℕ} (is : Digits digits value) :
    ∃ byte more, digits ++ behind = byte :: more ∧ isDigit byte = true := by
  obtain ⟨some_, each, -⟩ := is
  obtain ⟨byte, more, rfl⟩ := List.exists_cons_of_ne_nil some_
  exact ⟨byte, more ++ behind, rfl, each byte List.mem_cons_self⟩

theorem SpelledRepetition.unique {minimum minimum' : ℕ} {maximum maximum' : Option ℕ}
    (spelled : SpelledRepetition minimum maximum input rest) (other : SpelledRepetition minimum' maximum' input rest') :
    minimum = minimum' ∧ maximum = maximum' ∧ rest = rest' := by
  have braced : ∀ {behind : Bytes}, input = ascii '{' :: behind → minimum = minimum' ∧ maximum = maximum' ∧
      rest = rest' := by
    rintro behind rfl
    obtain ⟨digits, more, is, whole, ends⟩ := spelled.inside
    obtain ⟨digits', more', is', whole', ends'⟩ := other.inside
    have last : more.head?.any isDigit = false := by
      rcases ends with ⟨rfl, -⟩ | ⟨rfl, -⟩ | ⟨_, _, -, rfl, -⟩ <;> rfl
    have last' : more'.head?.any isDigit = false := by
      rcases ends' with ⟨rfl, -⟩ | ⟨rfl, -⟩ | ⟨_, _, -, rfl, -⟩ <;> rfl
    obtain ⟨rfl, rfl⟩ := is.unique is' last last' (whole.symm.trans whole')
    have digit_brace : ∀ {digits behind : Bytes} {value : ℕ}, Digits digits value → digits ++
      ascii '}' :: behind ≠ ascii '}' :: rest ∧
        digits ++ ascii '}' :: behind ≠ ascii '}' :: rest' := by
      intro digits behind value is
      obtain ⟨byte, more, same, digit⟩ := @Digits.head _ (ascii '}' :: behind) _ is
      refine ⟨fun brace => ?_, fun brace => ?_⟩
      · rw [same, List.cons.injEq] at brace
        exact absurd digit (by rw [brace.1]; decide)
      · rw [same, List.cons.injEq] at brace
        exact absurd digit (by rw [brace.1]; decide)
    rcases ends with ⟨rfl, rfl⟩ | ⟨rfl, rfl⟩ | ⟨one, most, is_, rfl, rfl⟩
    · rcases ends' with ⟨same, rfl⟩ | ⟨same, -⟩ | ⟨_, _, -, same, -⟩
      · exact ⟨rfl, rfl, (List.cons.inj same).2⟩
      · exact absurd (List.cons.inj same).1 (by decide)
      · exact absurd (List.cons.inj same).1 (by decide)
    · rcases ends' with ⟨same, -⟩ | ⟨same, rfl⟩ | ⟨_, _, is'', same, -⟩
      · exact absurd (List.cons.inj same).1 (by decide)
      · simp only [List.cons.injEq, true_and] at same
        exact ⟨rfl, rfl, same⟩
      · exact absurd (List.cons.inj same).2.symm (digit_brace is'').1
    · rcases ends' with ⟨same, -⟩ | ⟨same, -⟩ | ⟨_, _, is'', same, rfl⟩
      · exact absurd (List.cons.inj same).1 (by decide)
      · exact absurd (List.cons.inj same).2 (digit_brace is_).2
      · obtain ⟨rfl, same⟩ := is_.unique is'' rfl rfl (List.cons.inj same).2
        exact ⟨rfl, rfl, (List.cons.inj same).2⟩
  generalize same : input = whole at other
  cases spelled with
  | optional =>
    cases other with
    | optional => exact ⟨rfl, rfl, (List.cons.inj same).2⟩
    | _ => exact absurd (List.cons.inj same).1 (by decide)
  | star =>
    cases other with
    | star => exact ⟨rfl, rfl, (List.cons.inj same).2⟩
    | _ => exact absurd (List.cons.inj same).1 (by decide)
  | plus =>
    cases other with
    | plus => exact ⟨rfl, rfl, (List.cons.inj same).2⟩
    | _ => exact absurd (List.cons.inj same).1 (by decide)
  | exactly => exact braced rfl
  | atLeast => exact braced rfl
  | between => exact braced (by rw [List.append_assoc]; rfl)

end Characters

section Phrases

variable {rest rest' input : Bytes} {kind : Kind} {phrase phrase' : Phrase kind}

/-- The six atoms. -/
def Phrase.shape : Phrase .atom → ℕ
  | .literal _ => 0
  | .characterClass _ _ => 1
  | .any => 2
  | .group _ => 3
  | .token _ => 4
  | .name _ => 5

/-- Which atom a byte starts. -/
def shapeOf (byte : UInt8) : ℕ :=
  if byte = quote then 0
  else if byte = ascii '[' then 1
  else if byte = ascii '.' then 2
  else if byte = ascii '(' then 3
  else if byte = ascii '!' ∨ byte = ascii '<' then 4
  else 5

theorem shapeOf_isName {byte : UInt8} (is : isName byte = true) : shapeOf byte = 5 := by
  have apart : ∀ other, isName other = false → byte ≠ other := by
    rintro other no rfl
    exact absurd is (by rw [no]; decide)
  rw [shapeOf, if_neg (apart _ (by decide)), if_neg (apart _ (by decide)), if_neg (apart _ (by decide)),
    if_neg (apart _ (by decide)), if_neg (not_or.mpr ⟨apart _ (by decide), apart _ (by decide)⟩)]

theorem Spelled.shape {atom : Phrase .atom} (spelled : Spelled atom input rest) :
    input.head?.map shapeOf = some atom.shape := by
  cases spelled with
  | literal => rfl
  | characterClass => rfl
  | any => rfl
  | group => rfl
  | token inside =>
    cases inside with
    | @id inverted => cases inverted <;> rfl
    | @piece inverted => cases inverted <;> rfl
  | @name letters _ some_ each =>
    obtain ⟨byte, more, rfl⟩ := List.exists_cons_of_ne_nil some_
    exact congrArg some (shapeOf_isName (each byte List.mem_cons_self))

theorem Spelled.shape_unique {atom atom' : Phrase .atom} (spelled : Spelled atom input rest)
    (other : Spelled atom' input rest') :
    atom.shape = atom'.shape :=
  Option.some.inj (spelled.shape.symm.trans other.shape)

theorem SpelledRepetition.opens {minimum : ℕ} {maximum : Option ℕ} (spelled : SpelledRepetition minimum maximum input rest) :
    input.head?.any opensRepetition = true := by
  cases spelled <;> rfl

/-- Bytes spell one phrase of a kind, and leave one rest. -/
theorem Spelled.unique (spelled : Spelled phrase input rest) (other : Spelled phrase' input rest') :
    phrase = phrase' ∧ rest = rest' := by
  induction spelled generalizing rest' with
  | one inside last ih =>
    cases other with
    | one inside' =>
      obtain ⟨rfl, rfl⟩ := ih inside'
      exact ⟨rfl, rfl⟩
    | choice before =>
      obtain ⟨-, rfl⟩ := ih before
      exact absurd rfl last
  | choice before behind ih ih' =>
    cases other with
    | one inside last =>
      obtain ⟨-, rfl⟩ := ih inside
      exact absurd rfl last
    | choice before' behind' =>
      obtain ⟨rfl, same⟩ := ih before'
      injection same with _ same
      subst same
      obtain ⟨rfl, rfl⟩ := ih' behind'
      exact ⟨rfl, rfl⟩
  | empty ends =>
    cases other with
    | empty => exact ⟨rfl, rfl⟩
    | followed goes => exact absurd ends (by rw [goes]; decide)
  | followed goes before behind ih ih' =>
    cases other with
    | empty ends => exact absurd ends (by rw [goes]; decide)
    | followed _ before' behind' =>
      obtain ⟨rfl, rfl⟩ := ih before'
      obtain ⟨rfl, rfl⟩ := ih' behind'
      exact ⟨rfl, rfl⟩
  | once inside last ih =>
    cases other with
    | once inside' =>
      obtain ⟨rfl, rfl⟩ := ih inside'
      exact ⟨rfl, rfl⟩
    | repeated inside' operator =>
      obtain ⟨-, rfl⟩ := ih inside'
      exact absurd operator.opens (by rw [last]; decide)
  | repeated inside operator bounds ih =>
    cases other with
    | once inside' last =>
      obtain ⟨-, rfl⟩ := ih inside'
      exact absurd operator.opens (by rw [last]; decide)
    | repeated inside' operator' =>
      obtain ⟨rfl, rfl⟩ := ih inside'
      obtain ⟨rfl, rfl, rfl⟩ := operator.unique operator'
      exact ⟨rfl, rfl⟩
  | literal inside =>
    have shapes := (Spelled.literal inside).shape_unique other
    generalize same : quote :: _ = whole at other
    cases other with
    | literal inside' =>
      injection same with _ same
      subst same
      obtain ⟨rfl, rfl⟩ := inside.unique inside'
      exact ⟨rfl, rfl⟩
    | _ => cases shapes
  | characterClass plain inside =>
    have shapes := (Spelled.characterClass plain inside).shape_unique other
    generalize same : ascii '[' :: negation (ascii '^') _ ++ _ = whole at other
    cases other with
    | characterClass plain' inside' =>
      obtain ⟨rfl, rfl⟩ := negation_unique plain plain' (List.cons.inj same).2
      obtain ⟨rfl, rfl⟩ := inside.unique inside'
      exact ⟨rfl, rfl⟩
    | _ => cases shapes
  | any =>
    have shapes := Spelled.any.shape_unique other
    generalize same : ascii '.' :: _ = whole at other
    cases other with
    | any => exact ⟨rfl, (List.cons.inj same).2⟩
    | _ => cases shapes
  | group inside ih =>
    have shapes := (Spelled.group inside).shape_unique other
    generalize same : ascii '(' :: _ = whole at other
    cases other with
    | group inside' =>
      injection same with _ same
      subst same
      obtain ⟨rfl, same⟩ := ih inside'
      exact ⟨rfl, (List.cons.inj same).2⟩
    | _ => cases shapes
  | token inside =>
    have shapes := (Spelled.token inside).shape_unique other
    cases other with
    | token inside' =>
      obtain ⟨rfl, rfl⟩ := inside.unique inside'
      exact ⟨rfl, rfl⟩
    | _ => cases shapes
  | @name letters rest some_ each last =>
    have shapes := (Spelled.name some_ each last).shape_unique other
    generalize same : letters ++ rest = whole at other
    cases other with
    | name _ each' last' =>
      obtain ⟨rfl, rfl⟩ := span_unique each each' last last' same
      exact ⟨rfl, rfl⟩
    | _ => cases shapes

theorem Layout.unique (layout : Layout input rest) (other : Layout input rest') : rest = rest' := by
  induction layout with
  | done ends =>
    cases other with
    | done => rfl
    | skip layout => exact absurd ends (by simp [layout])
    | comment => exact absurd ends (by simp)
  | skip layout more ih =>
    cases other with
    | done ends => exact absurd ends (by simp [layout])
    | skip _ more' => exact ih more'
    | comment => exact absurd layout (by decide)
  | comment more ih =>
    cases other with
    | done ends => exact absurd ends (by simp)
    | skip layout => exact absurd layout (by decide)
    | comment more' => exact ih more'

/-- A text spells its definitions in one way. -/
theorem SpelledDefinitions.unique {definitions definitions' : Definitions} (spelled : SpelledDefinitions definitions input)
    (other : SpelledDefinitions definitions' input) : definitions = definitions' := by
  induction spelled generalizing definitions' with
  | done layout =>
    cases other with
    | done => rfl
    | rule layout' some_ =>
      exact absurd (List.append_eq_nil_iff.mp (layout.unique layout').symm).1 some_
  | rule layout some_ each last defines inside ends behind ih =>
    cases other with
    | done layout' => exact absurd (List.append_eq_nil_iff.mp (layout.unique layout')).1 some_
    | rule layout' _ each' last' defines' inside' _ behind' =>
      obtain ⟨rfl, rfl⟩ := span_unique each each' last last' (layout.unique layout')
      rw [defines] at defines'
      simp only [List.cons.injEq, true_and] at defines'
      subst defines'
      obtain ⟨rfl, rfl⟩ := inside.unique inside'
      rw [ih behind']

end Phrases

end Muser.Gbnf
