import Mathlib.Computability.Language
import Muser.Gbnf.Writing

/-! # Texts that speak a language

A text speaks a language when the phrase it is written for has the words of the language, refers to no
name, and is the same whatever is defined. Such texts are put together from smaller ones.
-/

namespace Muser.Gbnf

/-- The words of a phrase are the words of a language. -/
def Phrase.Speaks {kind : Kind} (phrase : Phrase kind) (language : Language Char) : Prop :=
  ∀ definitions word, Means definitions phrase word ↔ ∃ letters ∈ language, word = letters.map .character

def Speaks (kind : Kind) (text : List Char) (language : Language Char) : Prop :=
  ∃ phrase : Phrase kind, Written phrase text ∧ phrase.refers = [] ∧ phrase.Speaks language

variable {text text' : List Char} {language language' : Language Char}

theorem Speaks.literal (characters : List Char) : Speaks .atom (quotedLiteral characters) {characters} := by
  refine ⟨.literal characters, .literal characters, rfl, fun definitions word => ?_⟩
  constructor
  · rintro ⟨⟩
    exact ⟨characters, rfl, rfl⟩
  · rintro ⟨letters, rfl, rfl⟩
    exact .literal

theorem Speaks.range {lower upper : Char}
    (spelled : ∀ rest, SpelledRanges [(lower, upper)] (Utf8.encodeAll [lower, '-', upper, ']'] ++ rest) rest)
    (plain : (Utf8.encode lower).head? ≠ some (ascii '^')) :
    Speaks .atom ['[', lower, '-', upper, ']']
      {letters | ∃ character, letters = [character] ∧ lower ≤ character ∧ character ≤ upper} := by
  refine ⟨.characterClass false [(lower, upper)],
    @Written.characterClass false _ [lower, '-', upper, ']'] ?_ (by simp) spelled, rfl, ?_⟩
  · intro _
    rw [Utf8.encodeAll_cons]
    cases bytes : Utf8.encode lower with
    | nil => exact absurd bytes (Utf8.encode_ne_nil lower)
    | cons byte behind =>
      rw [bytes] at plain
      exact plain
  · intro definitions word
    constructor
    · intro means
      cases means with
      | @characterClass _ _ character inside =>
        obtain ⟨range, mem, within⟩ := inside.mpr rfl
        obtain rfl := List.mem_singleton.mp mem
        exact ⟨[character], ⟨character, rfl, within⟩, rfl⟩
    · rintro ⟨_, ⟨character, rfl, within⟩, rfl⟩
      exact .characterClass ⟨fun _ => rfl, fun _ => ⟨(lower, upper), List.mem_singleton_self _, within⟩⟩

theorem Speaks.once (speaks : Speaks .atom text language) : Speaks .item text language := by
  obtain ⟨atom, written, refers, means⟩ := speaks
  refine ⟨.once atom, .once written, refers, fun definitions word => ?_⟩
  rw [← means]
  constructor
  · rintro ⟨⟩
    assumption
  · exact .once

/-- An atom that is repeated so many times. -/
theorem Speaks.counted {count : ℕ} {digits : List Char} (speaks : Speaks .atom text language)
    (is : Digits (Utf8.encodeAll digits) count)
    (few : count < 5000) : Speaks .item (text ++ '{' :: (digits ++ ['}'])) (language ^ count) := by
  obtain ⟨atom, written, refers, means⟩ := speaks
  refine ⟨.repeated atom count (some count), .counted written is few, refers, fun definitions word => ?_⟩
  constructor
  · intro repeated
    cases repeated with
    | repeated words each enough most =>
      have exactly : words.length = count := le_antisymm (most count rfl) enough
      clear enough most is few
      subst exactly
      induction words with
      | nil => exact ⟨[], rfl, rfl⟩
      | cons word words ih =>
        obtain ⟨letters, mem, rfl⟩ := (means definitions word).mp (each word List.mem_cons_self)
        obtain ⟨others, mem', same⟩ := ih fun other member => each other (List.mem_cons_of_mem _ member)
        refine ⟨letters ++ others, ?_, by rw [List.flatten_cons, same, List.map_append]⟩
        rw [List.length_cons, pow_succ']
        exact Language.append_mem_mul mem mem'
  · rintro ⟨letters, mem, rfl⟩
    obtain ⟨parts, rfl, rfl, each⟩ := Language.mem_pow.mp mem
    have whole : parts.flatten.map Input.character = (parts.map fun part => part.map Input.character).flatten := by
      rw [List.map_flatten]
    rw [whole]
    refine .repeated _ ?_ (by rw [List.length_map]) fun most same => ?_
    · intro word member
      obtain ⟨part, mem, rfl⟩ := List.mem_map.mp member
      exact (means definitions _).mpr ⟨part, each part mem, rfl⟩
    · cases same
      rw [List.length_map]

theorem Speaks.empty {blanks : List Char} (each : ∀ character ∈ blanks, character = ' ') : Speaks .sequence blanks 1 := by
  refine ⟨.empty, .empty each, rfl, fun definitions word => ?_⟩
  constructor
  · rintro ⟨⟩
    exact ⟨[], rfl, rfl⟩
  · rintro ⟨letters, rfl, rfl⟩
    exact .empty

/-- An item with others behind it. -/
theorem Speaks.followed (first : Speaks .item text language) (others : Speaks .sequence text' language')
    (apart : text' = [] ∨ text'.head? = some ' ') : Speaks .sequence (text ++ text') (language * language') := by
  obtain ⟨item, written, refers, means⟩ := first
  obtain ⟨sequence, written', refers', means'⟩ := others
  refine ⟨.followed item sequence, @Written.followed item sequence [] text text' (by simp) written written' apart, ?_, ?_⟩
  · rw [Phrase.refers, refers, refers', List.append_nil]
  · intro definitions word
    constructor
    · intro both
      cases both with
      | followed before behind =>
        obtain ⟨letters, mem, rfl⟩ := (means definitions _).mp before
        obtain ⟨letters', mem', rfl⟩ := (means' definitions _).mp behind
        exact ⟨letters ++ letters', Language.append_mem_mul mem mem', (List.map_append ..).symm⟩
    · rintro ⟨_, both, rfl⟩
      obtain ⟨letters, mem, letters', mem', rfl⟩ := Language.mem_mul.mp both
      rw [List.map_append]
      exact .followed ((means definitions _).mpr ⟨letters, mem, rfl⟩) ((means' definitions _).mpr ⟨letters', mem', rfl⟩)

theorem Speaks.alone (item : Speaks .item text language) : Speaks .sequence text language := by
  have sequence := item.followed (@Speaks.empty [] (by simp)) (.inl rfl)
  rwa [List.append_nil, mul_one] at sequence

/-- A blank in front of a sequence. -/
theorem Written.blank_sequence {sequence : Phrase .sequence} (written : Written sequence text) :
    Written sequence (' ' :: text) := by
  cases written with
  | empty each => exact .empty (List.forall_mem_cons.mpr ⟨rfl, each⟩)
  | followed each before behind apart => exact .followed (List.forall_mem_cons.mpr ⟨rfl, each⟩) before behind apart

theorem Written.blank {alternatives : Phrase .alternatives} (written : Written alternatives text) :
    Written alternatives (' ' :: text) := by
  cases written with
  | one inside => exact .one inside.blank_sequence
  | choice before behind => exact .choice before.blank_sequence behind

/-- A blank behind a sequence. -/
theorem Written.trailing {sequence : Phrase .sequence} {text : List Char} (written : Written sequence text) :
    Written sequence (text ++ [' ']) := by
  cases sequence with
  | empty =>
    cases written with
    | empty each =>
      refine .empty fun character mem => ?_
      rcases List.mem_append.mp mem with mem | mem
      · exact each character mem
      · exact List.mem_singleton.mp mem
  | followed first others =>
    cases written with
    | @followed _ _ blanks text text' each before behind apart =>
      rw [List.append_assoc, List.append_assoc]
      refine .followed each before (Written.trailing behind) ?_
      rcases apart with rfl | head
      · exact .inr rfl
      · obtain ⟨tail, rfl⟩ := List.head?_eq_some_iff.mp head
        exact .inr rfl

theorem Speaks.blank (speaks : Speaks .sequence text language) : Speaks .sequence (' ' :: text) language := by
  obtain ⟨sequence, written, refers, means⟩ := speaks
  exact ⟨sequence, written.blank_sequence, refers, means⟩

theorem Speaks.one (speaks : Speaks .sequence text language) : Speaks .alternatives text language := by
  obtain ⟨sequence, written, refers, means⟩ := speaks
  refine ⟨.one sequence, .one written, refers, fun definitions word => ?_⟩
  rw [← means]
  constructor
  · rintro ⟨⟩
    assumption
  · exact .one

theorem Speaks.choice (first : Speaks .sequence text language) (others : Speaks .alternatives text' language') :
    Speaks .alternatives (text ++ " | ".toList ++ text') (language + language') := by
  obtain ⟨sequence, written, refers, means⟩ := first
  obtain ⟨alternatives, written', refers', means'⟩ := others
  have whole : text ++ " | ".toList ++ text' = (text ++ [' ']) ++ '|' :: ' ' :: text' := by simp
  refine ⟨.choice sequence alternatives, whole ▸ .choice written.trailing written'.blank, ?_, ?_⟩
  · rw [Phrase.refers, refers, refers', List.append_nil]
  · intro definitions word
    constructor
    · intro either
      cases either with
      | first inside =>
        obtain ⟨letters, mem, rfl⟩ := (means definitions _).mp inside
        exact ⟨letters, .inl mem, rfl⟩
      | others inside =>
        obtain ⟨letters, mem, rfl⟩ := (means' definitions _).mp inside
        exact ⟨letters, .inr mem, rfl⟩
    · rintro ⟨letters, mem, rfl⟩
      rcases (Language.mem_add _ _ _).mp mem with mem | mem
      · exact .first ((means definitions _).mpr ⟨letters, mem, rfl⟩)
      · exact .others ((means' definitions _).mpr ⟨letters, mem, rfl⟩)

theorem Speaks.group (speaks : Speaks .alternatives text language) : Speaks .atom ('(' :: (text ++ [')'])) language := by
  obtain ⟨alternatives, written, refers, means⟩ := speaks
  refine ⟨.group alternatives, .group written, refers, fun definitions word => ?_⟩
  rw [← means]
  constructor
  · rintro ⟨⟩
    assumption
  · exact .group

/-- Sequences with bars between them. -/
theorem speaks_bars {languages : List (Language Char)} {texts : List (List Char)} (here : Speaks .sequence text language)
    (each : List.Forall₂ (Speaks .sequence) texts languages) : Speaks .alternatives (bars text texts)
    (language + languages.sum) := by
  induction each generalizing text language with
  | nil =>
    rw [List.sum_nil, add_zero]
    exact here.one
  | cons second others ih =>
    rw [bars, List.sum_cons]
    exact here.choice (ih second)

end Muser.Gbnf
