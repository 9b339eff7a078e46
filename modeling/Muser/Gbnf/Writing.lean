import Muser.Gbnf.Quoting
import Muser.Lib.Text

/-! # Writing the notation

Texts as a program writes them: literals quoted, one character for each operator, blanks between the
items of a sequence. Such a text spells the phrase it was written for, whatever stands behind it.
-/

namespace Muser.Gbnf

/-- The characters of rule names. -/
def inName (character : Char) : Bool := decide (character.toNat < 128) && isName (ascii character)

/-- The operators of one character. -/
def signs : List (Char × ℕ × Option ℕ) := [('?', 0, some 1), ('*', 0, none), ('+', 1, none)]

inductive Written : {kind : Kind} → Phrase kind → List Char → Prop
  | one {only : Phrase .sequence} {text : List Char} (inside : Written only text) : Written (.one only) text
  | choice {first : Phrase .sequence} {others : Phrase .alternatives} {text text' : List Char} (before : Written first text)
      (behind : Written others text') : Written (.choice first others) (text ++ '|' :: text')
  | empty {blanks : List Char} (each : ∀ character ∈ blanks, character = ' ') : Written .empty blanks
  | followed {first : Phrase .item} {others : Phrase .sequence} {blanks text text' : List Char}
      (each : ∀ character ∈ blanks, character = ' ') (before : Written first text) (behind : Written others text')
      (apart : text' = [] ∨ text'.head? = some ' ') : Written (.followed first others) (blanks ++ (text ++ text'))
  | once {atom : Phrase .atom} {text : List Char} (inside : Written atom text) : Written (.once atom) text
  | repeated {atom : Phrase .atom} {minimum : ℕ} {maximum : Option ℕ} {sign : Char} {text : List Char}
      (inside : Written atom text)
      (known : (sign, minimum, maximum) ∈ signs) : Written (.repeated atom minimum maximum) (text ++ [sign])
  | counted {atom : Phrase .atom} {count : ℕ} {digits text : List Char} (inside : Written atom text)
      (is : Digits (Utf8.encodeAll digits) count) (few : count < 5000) :
      Written (.repeated atom count (some count)) (text ++ '{' :: (digits ++ ['}']))
  | literal (characters : List Char) : Written (.literal characters) (quotedLiteral characters)
  | characterClass {inverted : Bool} {ranges : List (Char × Char)} {text : List Char}
      (plain : inverted = false → (Utf8.encodeAll text).head? ≠ some (ascii '^')) (some_ : text ≠ [])
        (inside : ∀ rest, SpelledRanges ranges (Utf8.encodeAll text ++ rest) rest) :
      Written (.characterClass inverted ranges) ('[' :: ((if inverted then ['^'] else []) ++ text))
  | group {alternatives : Phrase .alternatives} {text : List Char} (inside : Written alternatives text) :
      Written (.group alternatives) ('(' :: (text ++ [')']))
  | name {letters : List Char} (some_ : letters ≠ []) (each : ∀ character ∈ letters, inName character = true) :
      Written (.name (String.ofList letters)) letters

section Spelling

variable {text : List Char} {rest : Bytes}

/-- What a phrase of a kind may be followed by. -/
def Kind.MayPrecede : Kind → Bytes → Prop
  | .atom, rest => rest.head?.any isName = false
  | .item, rest => rest.head?.any isName = false ∧ (skipBlanks rest).head?.any opensRepetition = false
  | .sequence, rest => (skipBlanks rest).head?.all endsSequence = true
  | .alternatives, rest => (skipBlanks rest).head?.all endsSequence = true ∧ (skipBlanks rest).head? ≠ some (ascii '|')

/-- What is left behind a phrase of a kind: some take blanks with them. -/
def Kind.Leaves : Kind → Bytes → Bytes → Prop
  | .atom, rest, left => left = rest
  | .item, rest, left => left = rest ∨ left = skipBlanks rest
  | .sequence, rest, left => left = skipBlanks rest
  | .alternatives, rest, left => left = skipBlanks rest

theorem skipBlanks_blanks (each : ∀ character ∈ text, character = ' ') (rest : Bytes) :
    skipBlanks (Utf8.encodeAll text ++ rest) = skipBlanks rest := by
  induction text with
  | nil => rfl
  | cons first text ih =>
    rw [each first (List.mem_cons_self ..), Utf8.encodeAll_cons]
    exact ih fun character mem => each character (List.mem_cons_of_mem _ mem)

theorem skipBlanks_of_head {byte : UInt8} {input : Bytes} (head : input.head? = some byte) (solid : isBlank byte = false) :
    skipBlanks input = input := by
  obtain ⟨behind, rfl⟩ := List.head?_eq_some_iff.mp head
  rw [skipBlanks, List.dropWhile_cons, if_neg (by rw [solid]; exact Bool.false_ne_true)]

theorem skipBlanks_idem (input : Bytes) : skipBlanks (skipBlanks input) = skipBlanks input := List.dropWhile_idempotent _ _

theorem Spelled.of_blanks {phrase : Phrase .sequence} {input : Bytes} (spelled : Spelled phrase input rest) :
    Spelled phrase (skipBlanks input) rest := by
  cases spelled with
  | empty ends =>
    rw [← skipBlanks_idem] at ends
    have empty := Spelled.empty ends
    rwa [skipBlanks_idem] at empty
  | followed goes before behind =>
    rw [← skipBlanks_idem] at goes before
    exact .followed goes before behind

/-- A byte that an item starts with. -/
def startsItem (byte : UInt8) : Bool := !isBlank byte && !endsSequence byte && !opensRepetition byte

theorem encodeAll_name {letters : List Char} (each : ∀ character ∈ letters, inName character = true) :
    Utf8.encodeAll letters = letters.map ascii ∧ (∀ byte ∈ Utf8.encodeAll letters, isName byte = true) ∧
      asciiText (Utf8.encodeAll letters) = String.ofList letters := by
  have small : ∀ character ∈ letters, character.toNat < 128 ∧ isName (ascii character) = true := by
    intro character mem
    have is := each character mem
    rw [inName, Bool.and_eq_true, decide_eq_true_iff] at is
    exact is
  have bytes : Utf8.encodeAll letters = letters.map ascii := Text.encodeAll_ascii fun character mem =>
    (small character mem).1
  refine ⟨bytes, ?_, ?_⟩
  · rw [bytes]
    intro byte mem
    obtain ⟨character, within, rfl⟩ := List.mem_map.mp mem
    exact (small character within).2
  · rw [bytes, asciiText, List.map_map]
    refine congrArg String.ofList ((List.map_congr_left fun character mem => ?_).trans (List.map_id letters))
    have value : (ascii character).toNat = character.toNat := by
      rw [ascii, Nat.toUInt8_eq, UInt8.toNat_ofNat', Nat.mod_eq_of_lt (by have := (small character mem).1; omega)]
    rw [Function.comp_apply, value, Char.ofNat_toNat]
    rfl

theorem quotedCharacter_bytes (character : Char) (rest : Bytes) :
    ∃ byte, (Utf8.encodeAll (quotedCharacter character) ++ rest).head? = some byte ∧ byte ≠ quote ∧
      isLineEnd byte = false := by
  obtain ⟨byte, head, inside⟩ := quotedCharacter_inside character []
  rw [List.append_nil] at head
  obtain ⟨behind, same⟩ := List.head?_eq_some_iff.mp head
  exact ⟨byte, by rw [same]; rfl, inside⟩

theorem spelledCharacter_quoted (character : Char) (rest : Bytes) :
    SpelledCharacter character (Utf8.encodeAll (quotedCharacter character) ++ rest) rest := by
  rw [quotedCharacter]
  split_ifs with backslash_ quote_ line return_ tab_
  · subst backslash_
    exact @SpelledCharacter.short backslash _ _ (by decide)
  · subst quote_
    exact @SpelledCharacter.short quote _ _ (by decide)
  · subst line
    exact @SpelledCharacter.short (ascii 'n') _ _ (by decide)
  · subst return_
    exact @SpelledCharacter.short (ascii 'r') _ _ (by decide)
  · subst tab_
    exact @SpelledCharacter.short (ascii 't') _ _ (by decide)
  · have plain : (Utf8.encode character ++ rest).head? ≠ some backslash := by
      intro head
      have own : (Utf8.encodeAll [character]).head? = some backslash := by
        rw [Utf8.encodeAll_cons]
        cases bytes : Utf8.encode character with
        | nil => exact absurd bytes (Utf8.encode_ne_nil character)
        | cons byte others =>
          rw [bytes] at head
          exact head
      exact backslash_ (eq_of_head rfl own)
    have spelled := SpelledCharacter.plain plain
    rwa [show Utf8.encodeAll [character] = Utf8.encode character from List.append_nil _]

theorem spelledLiteral_quoted (value : List Char) (rest : Bytes) :
    SpelledLiteral value (Utf8.encodeAll (value.flatMap quotedCharacter) ++ quote :: rest) rest := by
  induction value with
  | nil => exact .close
  | cons character value ih =>
    rw [List.flatMap_cons, Utf8.encodeAll_append, List.append_assoc]
    obtain ⟨byte, head, inside⟩ :=
      quotedCharacter_bytes character (Utf8.encodeAll (value.flatMap quotedCharacter) ++ quote :: rest)
    refine .character (fun other same => ?_) (spelledCharacter_quoted character _) ih
    rw [head] at same
    cases same
    exact inside

/-- A byte that an item starts with. -/
def Starts (text : List Char) : Prop := ∃ byte behind, Utf8.encodeAll text = byte :: behind ∧ startsItem byte = true

theorem startsItem_isName {byte : UInt8} (is : isName byte = true) : startsItem byte = true := by
  have apart : ∀ other, isName other = false → (byte == other) = false := by
    intro other no
    rw [beq_eq_false_iff_ne]
    rintro rfl
    exact absurd is (by rw [no]; decide)
  simp only [startsItem, isBlank, endsSequence, isLineEnd, opensRepetition, apart blank (by decide),
    apart tab (by decide), apart (ascii '|') (by decide),
    apart carriageReturn (by decide), apart lineFeed (by decide), apart (ascii ')') (by decide),
      apart (ascii '#') (by decide),
    apart (ascii '?') (by decide), apart (ascii '*') (by decide), apart (ascii '+') (by decide),
      apart (ascii '{') (by decide)]
  decide

theorem Written.starts_atom {atom : Phrase .atom} (is : Written atom text) : Starts text := by
  cases is with
  | literal characters => exact ⟨quote, _, rfl, by decide⟩
  | characterClass plain some_ inside => exact ⟨ascii '[', _, rfl, by decide⟩
  | group inside => exact ⟨ascii '(', _, rfl, by decide⟩
  | name some_ each =>
    obtain ⟨bytes, named, -⟩ := encodeAll_name each
    cases text with
    | nil => exact absurd rfl some_
    | cons first text =>
      rw [List.map_cons] at bytes
      exact ⟨_, _, bytes, startsItem_isName (named _ (bytes ▸ List.mem_cons_self ..))⟩

theorem Written.starts {item : Phrase .item} (is : Written item text) : Starts text := by
  cases is with
  | once inside => exact inside.starts_atom
  | repeated inside known | counted inside is few =>
    obtain ⟨byte, behind, bytes, starts⟩ := inside.starts_atom
    exact ⟨byte, _, by rw [Utf8.encodeAll_append, bytes]; rfl, starts⟩

theorem Starts.solid {text : List Char} (is : Starts text) (rest : Bytes) :
    skipBlanks (Utf8.encodeAll text ++ rest) = Utf8.encodeAll text ++ rest ∧
    (Utf8.encodeAll text ++ rest).head?.all endsSequence = false ∧
    (Utf8.encodeAll text ++ rest).head?.any opensRepetition = false := by
  obtain ⟨byte, behind, bytes, starts⟩ := is
  rw [startsItem, Bool.and_eq_true, Bool.and_eq_true, Bool.not_eq_true', Bool.not_eq_true', Bool.not_eq_true'] at starts
  rw [bytes]
  exact ⟨skipBlanks_of_head rfl starts.1.1, starts.1.2, starts.2⟩

/-- What ends a sequence opens no repetition and goes on with no name. -/
theorem ends_apart {next : Option UInt8} (ends : next.all endsSequence = true) : next.any opensRepetition = false ∧
    next.any isName = false := by
  cases next with
  | none => exact ⟨rfl, rfl⟩
  | some byte =>
    rw [Option.all_some, endsSequence] at ends
    simp only [Bool.or_eq_true, beq_iff_eq, isLineEnd] at ends
    rcases ends with ((rfl | rfl | rfl) | rfl) | rfl <;> exact ⟨rfl, rfl⟩

/-- What a sequence is followed by, before its blanks. -/
theorem head_apart {rest : Bytes} (ends : (skipBlanks rest).head?.all endsSequence = true) :
    rest.head?.any isName = false := by
  cases rest with
  | nil => rfl
  | cons byte rest =>
    by_cases is_blank : isBlank byte = true
    · rw [isBlank, Bool.or_eq_true, beq_iff_eq, beq_iff_eq] at is_blank
      rcases is_blank with rfl | rfl
      · rfl
      · rfl
    · rw [skipBlanks_of_head rfl (by simpa using is_blank)] at ends
      exact (ends_apart ends).2

/-- What a sequence starts with opens no repetition. -/
theorem Written.apart {sequence : Phrase .sequence} (is : Written sequence text)
    (ends : (skipBlanks rest).head?.all endsSequence = true) :
    (skipBlanks (Utf8.encodeAll text ++ rest)).head?.any opensRepetition = false := by
  cases is with
  | empty each =>
    rw [skipBlanks_blanks each]
    exact (ends_apart ends).1
  | followed each before behind apart =>
    rw [Utf8.encodeAll_append, List.append_assoc, skipBlanks_blanks each, Utf8.encodeAll_append, List.append_assoc]
    obtain ⟨solid, -, no_sign⟩ := before.starts.solid (Utf8.encodeAll _ ++ rest)
    rw [solid]
    exact no_sign

/-- A text that writes a phrase spells it, whatever stands behind it. -/
theorem Written.spelled {kind : Kind} {phrase : Phrase kind} (is : Written phrase text) (rest : Bytes)
    (follows : kind.MayPrecede rest) :
    ∃ left, kind.Leaves rest left ∧ Spelled phrase (Utf8.encodeAll text ++ rest) left := by
  induction is generalizing rest with
  | one inside ih =>
    obtain ⟨left, rfl, spelled⟩ := ih rest follows.1
    exact ⟨_, rfl, .one spelled follows.2⟩
  | @choice first others text text' before behind ih ih' =>
    obtain ⟨left, rfl, spelled⟩ := ih (ascii '|' :: (Utf8.encodeAll text' ++ rest)) rfl
    obtain ⟨left, rfl, spelled'⟩ := ih' rest follows
    refine ⟨_, rfl, ?_⟩
    rw [Utf8.encodeAll_append, List.append_assoc]
    exact .choice spelled spelled'
  | empty each =>
    refine ⟨_, rfl, ?_⟩
    have ends := follows
    rw [Kind.MayPrecede, ← skipBlanks_blanks each] at ends
    have spelled := Spelled.empty ends
    rwa [skipBlanks_blanks each] at spelled
  | @followed first others blanks text text' each before behind apart ih ih' =>
    obtain ⟨left, rfl, spelled'⟩ := ih' rest follows
    have separate : (Utf8.encodeAll text' ++ rest).head?.any isName = false := by
      rcases apart with rfl | head
      · exact head_apart follows
      · obtain ⟨behind, rfl⟩ := List.head?_eq_some_iff.mp head
        rfl
    obtain ⟨left, leaves, spelled⟩ := ih _ ⟨separate, behind.apart follows⟩
    obtain ⟨solid, goes, -⟩ := before.starts.solid (Utf8.encodeAll text' ++ rest)
    refine ⟨_, rfl, ?_⟩
    rw [Utf8.encodeAll_append, List.append_assoc, Utf8.encodeAll_append, List.append_assoc]
    refine @Spelled.followed first others _ left _ ?_ ?_ ?_
    · rw [skipBlanks_blanks each, solid]
      exact goes
    · rw [skipBlanks_blanks each, solid]
      exact spelled
    · rcases leaves with rfl | rfl
      · exact spelled'
      · exact spelled'.of_blanks
  | once inside ih =>
    obtain ⟨left, rfl, spelled⟩ := ih rest follows.1
    exact ⟨_, .inr rfl, .once spelled follows.2⟩
  | @repeated atom minimum maximum sign text inside known ih =>
    have operator : ∃ byte, Utf8.encodeAll [sign] = [byte] ∧ isName byte = false ∧ isBlank byte = false ∧
        SpelledRepetition minimum maximum (byte :: rest) rest ∧ InBounds minimum maximum := by
      simp only [signs, List.mem_cons, Prod.mk.injEq, List.not_mem_nil, or_false] at known
      rcases known with ⟨rfl, rfl, rfl⟩ | ⟨rfl, rfl, rfl⟩ | ⟨rfl, rfl, rfl⟩
      · exact ⟨ascii '?', rfl, rfl, rfl, .optional, by decide, fun most is => by cases is; decide⟩
      · exact ⟨ascii '*', rfl, rfl, rfl, .star, by decide, nofun⟩
      · exact ⟨ascii '+', rfl, rfl, rfl, .plus, by decide, nofun⟩
    obtain ⟨byte, bytes, no_name, solid, operator, bounds⟩ := operator
    obtain ⟨left, rfl, spelled⟩ := ih (byte :: rest) no_name
    refine ⟨rest, .inl rfl, ?_⟩
    rw [Utf8.encodeAll_append, bytes, List.append_assoc]
    refine .repeated spelled ?_ bounds
    rw [skipBlanks_of_head rfl solid]
    exact operator
  | @counted atom count digits text inside is few ih =>
    have bytes : Utf8.encodeAll (text ++ '{' :: (digits ++ ['}'])) ++ rest =
        Utf8.encodeAll text ++ (ascii '{' :: Utf8.encodeAll digits ++ ascii '}' :: rest) := by
      rw [Utf8.encodeAll_append, Utf8.encodeAll_cons, Utf8.encodeAll_append]
      simp only [List.append_assoc]
      rfl
    obtain ⟨left, rfl, spelled⟩ := ih (ascii '{' :: Utf8.encodeAll digits ++ ascii '}' :: rest) rfl
    refine ⟨rest, .inl rfl, ?_⟩
    rw [bytes]
    refine .repeated spelled ?_ ⟨few, fun most is => ?_⟩
    · rw [List.cons_append, skipBlanks_of_head rfl rfl]
      exact .exactly is
    · cases is
      exact ⟨le_refl count, few.le⟩
  | literal characters =>
    refine ⟨rest, rfl, ?_⟩
    have inside := spelledLiteral_quoted characters rest
    rw [quotedLiteral, List.cons_append, Utf8.encodeAll_cons, Utf8.encodeAll_append]
    simp only [List.append_assoc]
    exact .literal inside
  | @characterClass inverted ranges text plain some_ inside =>
    refine ⟨rest, rfl, ?_⟩
    have plain' : inverted = false → (Utf8.encodeAll text ++ rest).head? ≠ some (ascii '^') := by
      cases bytes : Utf8.encodeAll text with
      | nil => exact absurd (Utf8.encodeAll_eq_nil bytes) some_
      | cons byte behind =>
        rw [bytes] at plain
        exact plain
    have spelled := Spelled.characterClass plain' (inside rest)
    cases inverted with
    | false => exact spelled
    | true => exact spelled
  | group inside ih =>
    obtain ⟨left, rfl, spelled⟩ := ih (ascii ')' :: rest) ⟨rfl, fun same => absurd (Option.some.inj same) (by decide)⟩
    refine ⟨rest, rfl, ?_⟩
    rw [Utf8.encodeAll_cons, Utf8.encodeAll_append]
    simp only [List.append_assoc]
    exact .group spelled
  | name some_ each =>
    obtain ⟨-, named, same⟩ := encodeAll_name each
    refine ⟨rest, rfl, ?_⟩
    rw [← same]
    exact .name (fun none => some_ (Utf8.encodeAll_eq_nil none)) named follows

end Spelling

section Building

/-- Items one behind the other. -/
def inSequence : List (Phrase .item) → Phrase .sequence
  | [] => .empty
  | item :: items => .followed item (inSequence items)

/-- Sequences of one item each, to choose from. -/
def oneOf (first : Phrase .item) : List (Phrase .item) → Phrase .alternatives
  | [] => .one (inSequence [first])
  | second :: others => .choice (inSequence [first]) (oneOf second others)

/-- Texts with bars between them. -/
def bars (first : List Char) : List (List Char) → List Char
  | [] => first
  | second :: others => first ++ " | ".toList ++ bars second others

/-- An item with blanks in front of it. -/
inductive Spaced : Phrase .item → List Char → Prop
  | of {item : Phrase .item} {blanks text : List Char} (each : ∀ character ∈ blanks, character = ' ')
      (written : Written item text) :
    Spaced item (' ' :: (blanks ++ text))

theorem Written.spaced {item : Phrase .item} {text : List Char} (is : Written item text) :
    Spaced item (' ' :: text) := @Spaced.of item [] text nofun is

theorem Written.optional {atom : Phrase .atom} {text : List Char} (is : Written atom text) :
    Written (.repeated atom 0 (some 1)) (text ++ ['?']) :=
  .repeated is (by decide)

theorem Written.star {atom : Phrase .atom} {text : List Char} (is : Written atom text) :
    Written (.repeated atom 0 none) (text ++ ['*']) :=
  .repeated is (by decide)

theorem Written.plus {atom : Phrase .atom} {text : List Char} (is : Written atom text) :
    Written (.repeated atom 1 none) (text ++ ['+']) :=
  .repeated is (by decide)

theorem written_inSequence {items : List (Phrase .item)} {texts : List (List Char)}
    (each : List.Forall₂ Spaced items texts) :
    Written (inSequence items) texts.flatten := by
  induction each with
  | nil => exact .empty nofun
  | @cons item text items texts first others ih =>
    cases first with
    | @of blanks text all written =>
      have rest : texts.flatten = [] ∨ texts.flatten.head? = some ' ' := by
        cases others with
        | nil => exact .inl rfl
        | cons second others =>
          obtain ⟨all, written⟩ := second
          exact .inr rfl
      have whole : ((' ' :: (blanks ++ text)) :: texts).flatten = ' ' :: blanks ++ (text ++ texts.flatten) := by
        simp
      rw [whole]
      exact .followed (List.forall_mem_cons.mpr ⟨rfl, all⟩) written ih rest

theorem written_oneOf {first : Phrase .item} {others : List (Phrase .item)} {text : List Char} {texts : List (List Char)}
    (here : Written first text) (each : List.Forall₂ Written others texts) (blanks : List Char)
    (all : ∀ character ∈ blanks, character = ' ') :
    Written (oneOf first others) (blanks ++ bars text texts) := by
  induction each generalizing first text blanks with
  | nil =>
    have written := Written.followed all here (@Written.empty [] nofun) (.inl rfl)
    rw [List.append_nil] at written
    exact .one written
  | @cons second text' others texts behind more ih =>
    have written := Written.followed all here (@Written.empty [' '] (by simp)) (.inr rfl)
    have rest := ih behind [' '] (by simp)
    have whole : blanks ++ bars text (text' :: texts) = blanks ++ (text ++ [' ']) ++ '|' :: ([' '] ++ bars text' texts) := by
      rw [bars]
      simp
    rw [whole]
    exact .choice written rest

variable {definitions : Definitions}

theorem means_inSequence {items : List (Phrase .item)} {words : List (List Input)}
    (each : List.Forall₂ (Means definitions) items words) :
    Means definitions (inSequence items) words.flatten := by
  induction each with
  | nil => exact .empty
  | cons first others ih => exact .followed first ih

theorem means_oneOf {first item : Phrase .item} {others : List (Phrase .item)} {word : List Input}
    (mem : item ∈ first :: others)
    (means : Means definitions item word) : Means definitions (oneOf first others) word := by
  have alone : ∀ {item : Phrase .item}, Means definitions item word → Means definitions (inSequence [item]) word := by
    intro item means
    have sequence := means_inSequence (List.Forall₂.cons means .nil)
    rwa [List.flatten_cons, List.flatten_nil, List.append_nil] at sequence
  induction others generalizing first with
  | nil =>
    obtain rfl := List.mem_singleton.mp mem
    exact .one (alone means)
  | cons second others ih =>
    rcases List.mem_cons.mp mem with rfl | mem
    · exact .first (alone means)
    · exact .others (ih mem)

theorem means_none (atom : Phrase .atom) (maximum : Option ℕ) : Means definitions (.repeated atom 0 maximum) [] :=
  .repeated [] (fun _ mem => absurd mem List.not_mem_nil) (Nat.zero_le _) fun _ _ => Nat.zero_le _

theorem means_once_repeated {atom : Phrase .atom} {maximum : Option ℕ} {minimum : ℕ} {word : List Input}
    (means : Means definitions atom word)
    (few : minimum ≤ 1) (most : ∀ most, maximum = some most → 1 ≤ most) :
    Means definitions (.repeated atom minimum maximum) word := by
  have each : Means definitions (.repeated atom minimum maximum) [word].flatten :=
    .repeated [word] (List.forall_mem_singleton.mpr means) few most
  rwa [List.flatten_singleton] at each

theorem refers_inSequence (items : List (Phrase .item)) : (inSequence items).refers = items.flatMap Phrase.refers := by
  induction items with
  | nil => rfl
  | cons item items ih =>
    rw [inSequence, Phrase.refers, ih]
    rfl

theorem refers_oneOf (first : Phrase .item) (others : List (Phrase .item)) :
    (oneOf first others).refers = (first :: others).flatMap Phrase.refers := by
  induction others generalizing first with
  | nil => exact refers_inSequence [first]
  | cons second others ih =>
    rw [oneOf, Phrase.refers, ih, refers_inSequence, List.flatMap_cons, List.flatMap_nil, List.append_nil,
      ← List.flatMap_cons]

/-- A line that defines a rule. -/
structure Line where
  name : List Char
  alternatives : Phrase .alternatives
  body : List Char

namespace Line

def text (line : Line) : List Char := line.name ++ " ::=".toList ++ line.body ++ ['\n']

/-- The line is written for the rule that it defines. -/
structure Fits (line : Line) : Prop where
  named : line.name ≠ []
  letters : ∀ character ∈ line.name, inName character = true
  written : Written line.alternatives line.body

def definition (line : Line) : String × Phrase .alternatives := (String.ofList line.name, line.alternatives)

/-- The line writes no name that a parser may make. -/
def Own (line : Line) : Prop := ∀ name ∈ String.ofList line.name :: line.alternatives.refers, name.toList.head? ≠ some '_'

end Line

theorem distinct_of_own {lines : List Line} (own : ∀ line ∈ lines, line.Own) :
    Definitions.Distinct (lines.map Line.definition) := by
  rintro name written index - rfl
  obtain ⟨definition, mem, within⟩ := List.mem_flatMap.mp written
  obtain ⟨line, line_mem, rfl⟩ := List.mem_map.mp mem
  refine own line line_mem _ within ?_
  rw [generatedName, String.toList_append]
  rfl

/-- Lines that define rules, behind the end of another line or at the start. -/
theorem spelled_lines {lines : List Line} (fit : ∀ line ∈ lines, line.Fits) (ends : Bytes)
    (ended : ends = [] ∨ ends = [lineFeed]) :
    SpelledDefinitions (lines.map Line.definition) (ends ++ Utf8.encodeAll (lines.flatMap Line.text)) := by
  induction lines generalizing ends with
  | nil =>
    rcases ended with rfl | rfl
    · exact .done (.done rfl)
    · exact .done (.skip rfl (.done rfl))
  | cons line lines ih =>
    obtain ⟨named, letters, written⟩ := fit line (List.mem_cons_self ..)
    have behind := ih (fun other mem => fit other (List.mem_cons_of_mem _ mem)) [lineFeed] (.inr rfl)
    obtain ⟨-, names, same⟩ := encodeAll_name letters
    obtain ⟨left, rfl, spelled⟩ := written.spelled (lineFeed :: Utf8.encodeAll (lines.flatMap Line.text))
      ⟨rfl, fun same => absurd (Option.some.inj same) (by decide)⟩
    have some_ : Utf8.encodeAll line.name ≠ [] := fun none => named (Utf8.encodeAll_eq_nil none)
    have whole : Utf8.encodeAll ((line :: lines).flatMap Line.text) = Utf8.encodeAll line.name ++
      (blank :: ascii ':' :: ascii ':' :: ascii '=' ::
        (Utf8.encodeAll line.body ++ lineFeed :: Utf8.encodeAll (lines.flatMap Line.text))) := by
      rw [List.flatMap_cons, Line.text]
      simp only [Utf8.encodeAll_append, List.append_assoc]
      rfl
    rw [List.map_cons, Line.definition, ← same, whole]
    have first : ∀ middle, Layout (Utf8.encodeAll line.name ++ middle) (Utf8.encodeAll line.name ++ middle) := by
      intro middle
      cases bytes : Utf8.encodeAll line.name with
      | nil => exact absurd bytes some_
      | cons byte behind =>
        have starts := startsItem_isName (names byte (bytes ▸ List.mem_cons_self ..))
        simp only [startsItem, endsSequence, Bool.and_eq_true, Bool.not_eq_true', Bool.or_eq_false_iff] at starts
        obtain ⟨⟨solid, ⟨⟨-, no_end⟩, -⟩, no_comment⟩, -⟩ := starts
        exact .done (by simp [solid, no_end, no_comment])
    have layout : ∀ middle, Layout (ends ++ (Utf8.encodeAll line.name ++ middle)) (Utf8.encodeAll line.name ++ middle) := by
      intro middle
      rcases ended with rfl | rfl
      · exact first middle
      · exact .skip rfl (first middle)
    exact .rule (layout _) some_ names rfl rfl spelled rfl behind

end Building

end Muser.Gbnf
