import Mathlib.Tactic.IntervalCases
import Muser.Schema.Integers

/-! # What the expression for a range of integers accepts

Every part of the expression speaks the numbers that it was made for: a class its digits, a range of one
width the texts of that width between its ends, and the whole the integers of the range.
-/

namespace Muser.Schema

open Gbnf Decimal

section Digits

/-- The texts of one digit between two. -/
def digitsBetween (lower upper : Char) : Language Char :=
  {letters | ∃ character, letters = [character] ∧ lower ≤ character ∧ character ≤ upper}

def digit : Language Char := digitsBetween '0' '9'

/-- The texts of one digit that is neither of two. -/
def digitsInside (first last : Char) : Language Char :=
  {letters | ∃ character : Char, letters = [character] ∧ first.toNat < character.toNat ∧ character.toNat < last.toNat ∧
    character.isDigit = true}

variable {character lower upper : Char} {letters : Text}

theorem isDigit_iff : character.isDigit = true ↔ '0' ≤ character ∧ character ≤ '9' := by
  rw [Char.isDigit, Bool.and_eq_true, decide_eq_true_eq, decide_eq_true_eq]
  exact Iff.rfl

theorem le_iff_toNat (first second : Char) : first ≤ second ↔ first.toNat ≤ second.toNat := UInt32.le_iff_toNat_le

/-- The byte of a digit is none that means something in a class. -/
theorem digit_byte (is : character.isDigit = true) : ∃ byte, Utf8.encode character = [byte] ∧ byte ≠ backslash ∧
    byte ≠ ascii ']' ∧ byte ≠ ascii '^' := by
  obtain ⟨low, high⟩ := toNat_digit is
  rw [← Char.ofNat_toNat character]
  interval_cases character.toNat <;> exact ⟨_, rfl, by decide, by decide, by decide⟩

theorem spelled_digit {byte : UInt8} (is : Utf8.encode character = [byte]) (plain : byte ≠ backslash) (rest : Bytes) :
    SpelledCharacter character (byte :: rest) rest := by
  have spelled : SpelledCharacter character (Utf8.encode character ++ rest) rest := .plain (by
    rw [is]
    exact fun same => plain (Option.some.inj same))
  rwa [is] at spelled

theorem spelled_range (is : lower.isDigit = true) (is' : upper.isDigit = true) (ordered : lower ≤ upper) (rest : Bytes) :
    SpelledRanges [(lower, upper)] (Utf8.encodeAll [lower, '-', upper, ']'] ++ rest) rest := by
  obtain ⟨byte, bytes, slash, bracket, -⟩ := digit_byte is
  obtain ⟨byte', bytes', slash', bracket', -⟩ := digit_byte is'
  have whole : Utf8.encodeAll [lower, '-', upper, ']'] ++ rest = byte :: ascii '-' :: byte' :: ascii ']' :: rest := by
    rw [Utf8.encodeAll_cons, Utf8.encodeAll_cons, Utf8.encodeAll_cons, bytes, bytes']
    rfl
  rw [whole]
  refine @SpelledRanges.range lower upper [] _ (byte' :: ascii ']' :: rest) (ascii ']' :: rest) rest ?_
    (spelled_digit bytes slash _) ?_
    (spelled_digit bytes' slash' _) ordered .close
  · exact fun same => bracket (Option.some.inj same)
  · exact ⟨rfl, fun same => bracket' (Option.some.inj same)⟩

theorem speaks_digitRange (is : lower.isDigit = true) (is' : upper.isDigit = true) (ordered : lower ≤ upper) :
    Speaks .atom (digitRange lower upper) (digitsBetween lower upper) := by
  obtain ⟨byte, bytes, -, -, caret⟩ := digit_byte is
  refine Speaks.range (spelled_range is is' ordered) ?_
  rw [bytes]
  exact fun same => caret (Option.some.inj same)

theorem speaks_digit : Speaks .atom (digitRange '0' '9') digit := speaks_digitRange rfl rfl (by decide)

theorem digits_braces {count : ℕ} (few : count ≤ 16) : Digits (Utf8.encodeAll (Nat.toDigits 10 count)) count := by
  interval_cases count <;> exact ⟨by decide +kernel, by decide +kernel, by decide +kernel⟩

theorem speaks_digits {count : ℕ} (few : count ≤ 16) : Speaks .item (digitRange '0' '9' ++ braces count) (digit ^ count) :=
  speaks_digit.counted (digits_braces few) (by omega)

theorem mem_digit : letters ∈ digit ↔ ∃ character : Char, letters = [character] ∧ character.isDigit = true :=
  exists_congr fun _ => and_congr_right fun _ => isDigit_iff.symm

/-- The texts of so many digits. -/
theorem mem_digit_pow {count : ℕ} : letters ∈ digit ^ count ↔ letters.length = count ∧ AllDigits letters := by
  induction count generalizing letters with
  | zero =>
    rw [pow_zero, Language.mem_one, List.length_eq_zero_iff]
    exact ⟨fun empty => ⟨empty, by subst empty; exact fun _ mem => by cases mem⟩, fun both => both.1⟩
  | succ count ih =>
    rw [pow_succ', Language.mem_mul]
    constructor
    · rintro ⟨first, mem, others, mem', rfl⟩
      obtain ⟨character, rfl, is⟩ := mem_digit.mp mem
      obtain ⟨rfl, digits⟩ := ih.mp mem'
      exact ⟨rfl, allDigits_cons.mpr ⟨is, digits⟩⟩
    · rintro ⟨long, digits⟩
      cases letters with
      | nil => cases long
      | cons first others =>
        obtain ⟨is, digits⟩ := allDigits_cons.mp digits
        exact ⟨[first], mem_digit.mpr ⟨first, rfl, is⟩, others, ih.mpr ⟨Nat.succ.inj long, digits⟩, rfl⟩

theorem speaks_suffix {text : Text} {language : Language Char} {count : ℕ} (few : count ≤ 16)
    (first : Speaks .item text language) :
    Speaks .sequence (text ++ suffix count) (language * digit ^ count) := by
  rw [suffix]
  split
  · next none =>
    rw [none, pow_zero, mul_one, List.append_nil]
    exact first.alone
  · split
    · next one =>
      rw [one, pow_one]
      exact first.followed speaks_digit.once.alone.blank (.inr rfl)
    · exact first.followed (speaks_digits few).alone.blank (.inr rfl)

end Digits

section Width

/-- The texts of digits, as wide as the ends, between them. -/
def between (lower upper : Text) : Language Char :=
  {letters | letters.length = lower.length ∧ AllDigits letters ∧ value lower ≤ value letters ∧ value letters ≤ value upper}

variable {lower upper shared low high : Text} {first last : Char}

theorem between_self (digits : AllDigits lower) : between lower lower = {lower} := by
  ext letters
  constructor
  · rintro ⟨long, digits', least, most⟩
    exact value_injective digits' digits long (le_antisymm most least)
  · rintro rfl
    exact ⟨rfl, digits, le_refl _, le_refl _⟩

/-- Ends that are all zeros and all nines let everything through. -/
theorem between_all {count : ℕ} : between (List.replicate count '0') (List.replicate count '9') = digit ^ count := by
  ext letters
  rw [mem_digit_pow]
  have nines := value_nines count
  constructor
  · rintro ⟨long, digits, -, -⟩
    exact ⟨by rw [long, List.length_replicate], digits⟩
  · rintro ⟨rfl, digits⟩
    have small := value_lt digits
    refine ⟨List.length_replicate.symm, digits, ?_, ?_⟩
    · rw [value_zeros]
      exact Nat.zero_le _
    · omega

/-- A prefix that the ends share is one of every text between them. -/
theorem between_append (digits : AllDigits shared) (long : low.length = high.length) (digitsLow : AllDigits low)
    (digitsHigh : AllDigits high) :
    between (shared ++ low) (shared ++ high) = {shared} * between low high := by
  have smallLow := value_lt digitsLow
  have smallHigh := value_lt digitsHigh
  ext letters
  rw [Language.mem_mul]
  constructor
  · rintro ⟨size, all, least, most⟩
    rw [List.length_append] at size
    obtain ⟨front, back, rfl, front_long⟩ : ∃ front back, letters = front ++ back ∧ front.length = shared.length :=
      ⟨_, _, (List.take_append_drop shared.length letters).symm, List.length_take_of_le (by lia)⟩
    rw [List.length_append, front_long] at size
    have back_long : back.length = low.length := by lia
    obtain ⟨digitsFront, digitsBack⟩ := allDigits_append.mp all
    have smallBack := value_lt digitsBack
    rw [value_append, value_append, back_long] at least
    rw [value_append, value_append, back_long, ← long] at most
    rw [← long] at smallHigh
    rw [back_long] at smallBack
    generalize 10 ^ low.length = power at *
    have same : value front = value shared := by
      have up : value shared ≤ value front := by
        by_contra less
        have step : power * value front + power ≤ power * value shared := by
          rw [← Nat.mul_succ]
          exact Nat.mul_le_mul_left _ (by lia)
        lia
      have down : value front ≤ value shared := by
        by_contra more
        have step : power * value shared + power ≤ power * value front := by
          rw [← Nat.mul_succ]
          exact Nat.mul_le_mul_left _ (by lia)
        lia
      exact le_antisymm down up
    rw [same] at least most
    exact ⟨shared, rfl, back, ⟨back_long, digitsBack, by lia, by lia⟩, by
      rw [value_injective digits digitsFront front_long.symm same.symm]⟩
  · rintro ⟨_, rfl, back, ⟨size, digitsBack, least, most⟩, rfl⟩
    refine ⟨?_, allDigits_append.mpr ⟨digits, digitsBack⟩, ?_, ?_⟩
    · rw [List.length_append, List.length_append, size]
    · rw [value_append, value_append, size]
      lia
    · rw [value_append, value_append, size, long]
      lia

/-- Texts of one width, compared by their first digit and then by the rest. -/
theorem value_cons_le (digits : AllDigits (first :: low)) (digits' : AllDigits (last :: high))
    (long : low.length = high.length) :
    value (first :: low) ≤ value (last :: high) ↔ first.toNat < last.toNat ∨ (first = last ∧ value low ≤ value high) := by
  have less := value_cons_lt digits' digits long.symm
  rw [← Nat.not_lt, less, not_or, Nat.not_lt, not_and, Nat.not_lt]
  constructor
  · rintro ⟨ordered, rest⟩
    rcases Nat.lt_or_eq_of_le ordered with less | same
    · exact .inl less
    · obtain rfl := Char.toNat_inj.mp same
      exact .inr ⟨rfl, rest rfl⟩
  · rintro (less | ⟨rfl, rest⟩)
    · exact ⟨less.le, by rintro rfl; exact absurd less (Nat.lt_irrefl _)⟩
    · exact ⟨le_refl _, fun _ => rest⟩

/-- Below the prefix: texts with the first digit of an end, and any texts with a digit between. -/
theorem between_cons (digits : AllDigits (first :: low)) (digits' : AllDigits (last :: high))
    (long : low.length = high.length)
    (ordered : first.toNat < last.toNat) : between (first :: low) (last :: high) =
      {[first]} * between low (List.replicate low.length '9') +
        (digitsInside first last * digit ^ low.length + {[last]} * between (List.replicate low.length '0') high) := by
  have nines := value_nines low.length
  have zeros := value_zeros low.length
  ext letters
  rw [Language.mem_add, Language.mem_add, Language.mem_mul, Language.mem_mul, Language.mem_mul]
  constructor
  · rintro ⟨size, all, least, most⟩
    cases letters with
    | nil => cases size
    | cons head rest =>
      have rest_long : rest.length = low.length := Nat.succ.inj size
      have small := value_lt (allDigits_cons.mp all).2
      rw [rest_long] at small
      rw [value_cons_le digits all rest_long.symm] at least
      rw [value_cons_le all digits' (rest_long.trans long)] at most
      rcases least with above | ⟨rfl, least⟩
      · rcases most with below | ⟨rfl, most⟩
        · refine .inr (.inl ⟨[head], ⟨head, rfl, above, below, (allDigits_cons.mp all).1⟩, rest, ?_, rfl⟩)
          exact mem_digit_pow.mpr ⟨rest_long, (allDigits_cons.mp all).2⟩
        · refine .inr (.inr ⟨[head], rfl, rest, ⟨?_, (allDigits_cons.mp all).2, ?_, most⟩, rfl⟩)
          · rw [rest_long, List.length_replicate]
          · lia
      · exact .inl ⟨[first], rfl, rest, ⟨rest_long, (allDigits_cons.mp all).2, least, by lia⟩, rfl⟩
  · rintro (⟨_, rfl, rest, ⟨size, all, least, -⟩, rfl⟩ | ⟨_, ⟨head, rfl, above, below, is⟩, rest, mem, rfl⟩ |
      ⟨_, rfl, rest, ⟨size, all, -, most⟩, rfl⟩)
    · have whole : AllDigits (first :: rest) := allDigits_cons.mpr ⟨(allDigits_cons.mp digits).1, all⟩
      refine ⟨congrArg (· + 1) size, whole, ?_, ?_⟩
      · exact (value_cons_le digits whole size.symm).mpr (.inr ⟨rfl, least⟩)
      · exact (value_cons_le whole digits' (size.trans long)).mpr (.inl ordered)
    · obtain ⟨size, all⟩ := mem_digit_pow.mp mem
      have whole : AllDigits (head :: rest) := allDigits_cons.mpr ⟨is, all⟩
      refine ⟨congrArg (· + 1) size, whole, ?_, ?_⟩
      · exact (value_cons_le digits whole size.symm).mpr (.inl above)
      · exact (value_cons_le whole digits' (size.trans long)).mpr (.inl below)
    · rw [List.length_replicate] at size
      have whole : AllDigits (last :: rest) := allDigits_cons.mpr ⟨(allDigits_cons.mp digits').1, all⟩
      refine ⟨congrArg (· + 1) size, whole, ?_, ?_⟩
      · exact (value_cons_le digits whole size.symm).mpr (.inl ordered)
      · exact (value_cons_le whole digits' (size.trans long)).mpr (.inr ⟨rfl, most⟩)

/-- Cutting off what the ends share. -/
theorem common_prefix (lower upper : Text) : lower.take ((lower.zip upper).takeWhile fun both => both.1 == both.2).length =
      upper.take ((lower.zip upper).takeWhile fun both => both.1 == both.2).length ∧
    ∀ first low last high, lower.drop ((lower.zip upper).takeWhile fun both => both.1 == both.2).length = first :: low →
      upper.drop ((lower.zip upper).takeWhile fun both => both.1 == both.2).length = last :: high → first ≠ last := by
  induction lower generalizing upper with
  | nil =>
    refine ⟨rfl, fun first low last high cut => ?_⟩
    cases cut
  | cons head lower ih =>
    cases upper with
    | nil =>
      refine ⟨rfl, fun first low last high _ cut => ?_⟩
      cases cut
    | cons head' upper =>
      by_cases same : head = head'
      · subst same
        have taken : ((head :: lower).zip (head :: upper)).takeWhile (fun both => both.1 == both.2) =
            (head, head) :: (lower.zip upper).takeWhile fun both => both.1 == both.2 := by
          rw [List.zip_cons_cons, List.takeWhile_cons_of_pos (by simp)]
        rw [taken, List.length_cons, List.take_succ_cons, List.take_succ_cons, List.drop_succ_cons, List.drop_succ_cons]
        exact ⟨congrArg (head :: ·) (ih upper).1, (ih upper).2⟩
      · have taken : ((head :: lower).zip (head' :: upper)).takeWhile (fun both => both.1 == both.2) = [] := by
          rw [List.zip_cons_cons, List.takeWhile_cons_of_neg (by simpa using same)]
        rw [taken]
        refine ⟨rfl, fun first low last high cut cut' => ?_⟩
        cases cut
        cases cut'
        exact same

/-- The range of a whole width, which starts at a power of ten. -/
theorem between_power (count : ℕ) : between ('1' :: List.replicate count '0') (List.replicate (count + 1) '9') =
    digitsBetween '1' '9' * digit ^ count := by
  have digits : AllDigits ('1' :: List.replicate count '0') := allDigits_cons.mpr ⟨rfl, allDigits_replicate rfl count⟩
  have nines := value_nines (count + 1)
  have zeros := value_zeros count
  ext letters
  rw [Language.mem_mul]
  constructor
  · rintro ⟨size, all, least, -⟩
    cases letters with
    | nil => cases size
    | cons head rest =>
      have rest_long : rest.length = (List.replicate count '0').length := Nat.succ.inj size
      obtain ⟨is, all'⟩ := allDigits_cons.mp all
      refine ⟨[head], ⟨head, rfl, ?_, (isDigit_iff.mp is).2⟩, rest,
        mem_digit_pow.mpr ⟨by rw [rest_long, List.length_replicate], all'⟩, rfl⟩
      rw [value_cons_le digits all rest_long.symm] at least
      rw [le_iff_toNat]
      rcases least with above | ⟨rfl, -⟩
      · exact above.le
      · exact le_refl _
  · rintro ⟨_, ⟨head, rfl, low, high⟩, rest, mem, rfl⟩
    obtain ⟨rfl, all⟩ := mem_digit_pow.mp mem
    have is : head.isDigit = true := isDigit_iff.mpr ⟨Char.le_trans (by decide) low, high⟩
    have whole : AllDigits (head :: rest) := allDigits_cons.mpr ⟨is, all⟩
    have small := value_lt whole
    have size : (List.replicate rest.length '0').length = rest.length := List.length_replicate
    refine ⟨?_, whole, ?_, ?_⟩
    · exact congrArg (· + 1) size.symm
    · rw [List.singleton_append, value_cons_le digits whole size]
      rcases Nat.lt_or_eq_of_le ((le_iff_toNat _ _).mp low) with above | same
      · exact .inl above
      · exact .inr ⟨Char.toNat_inj.mp same, by lia⟩
    · rw [List.singleton_append]
      rw [List.length_cons] at small
      lia

theorem toNat_following (is : first.isDigit = true) : (following first).toNat = first.toNat + 1 := by
  obtain ⟨low, high⟩ := toNat_digit is
  rw [following]
  generalize first.toNat = code at *
  interval_cases code <;> rfl

theorem toNat_preceding (is : first.isDigit = true) : (preceding first).toNat = first.toNat - 1 := by
  obtain ⟨low, high⟩ := toNat_digit is
  rw [preceding]
  generalize first.toNat = code at *
  interval_cases code <;> rfl

theorem isDigit_of_toNat (low : 48 ≤ first.toNat) (high : first.toNat ≤ 57) : first.isDigit = true :=
  isDigit_iff.mpr ⟨(le_iff_toNat _ _).mpr low, (le_iff_toNat _ _).mpr high⟩

theorem digitsInside_eq (is : first.isDigit = true) (is' : last.isDigit = true) :
    digitsInside first last = digitsBetween (following first) (preceding last) := by
  have follows := toNat_following is
  have precedes := toNat_preceding is'
  obtain ⟨low, -⟩ := toNat_digit is
  obtain ⟨low', high⟩ := toNat_digit is'
  ext letters
  refine exists_congr fun character => and_congr_right fun _ => ?_
  rw [le_iff_toNat, le_iff_toNat, follows, precedes]
  constructor
  · rintro ⟨above, below, -⟩
    lia
  · rintro ⟨above, below⟩
    exact ⟨by lia, by lia, isDigit_of_toNat (by lia) (by lia)⟩

/-- Nothing lies between two digits that follow each other. -/
theorem digitsInside_none (beside : ¬first.toNat + 1 < last.toNat) : digitsInside first last = 0 := by
  ext letters
  refine iff_of_false ?_ (Language.notMem_zero letters)
  rintro ⟨character, -, above, below, -⟩
  omega

theorem eq_replicate_of_all {text : Text} {character : Char} (all : text.all (· == character) = true) :
    text = List.replicate text.length character :=
  List.eq_replicate_iff.mpr ⟨rfl, fun other mem => beq_iff_eq.mp (List.all_eq_true.mp all other mem)⟩

end Width

section Choices

variable {lower upper low high : Text} {first last : Char}

/-- The digits between, which are a choice of their own where there are some. -/
theorem speaks_inside {count : ℕ} (few : count ≤ 16) (is : first.isDigit = true) (is' : last.isDigit = true) :
    ∃ languages, List.Forall₂ (Speaks .sequence)
        (if first.toNat + 1 < last.toNat then
          [digitRange (following first) (preceding last) ++ suffix count] else []) languages ∧
      languages.sum = digitsInside first last * digit ^ count := by
  split
  · next apart =>
    have follows := toNat_following is
    have precedes := toNat_preceding is'
    obtain ⟨lowest, -⟩ := toNat_digit is
    obtain ⟨-, highest⟩ := toNat_digit is'
    have ordered : following first ≤ preceding last := (le_iff_toNat _ _).mpr (by lia)
    have range := speaks_digitRange (isDigit_of_toNat (by lia) (by lia)) (isDigit_of_toNat (by lia) (by lia)) ordered
    refine ⟨[digitsInside first last * digit ^ count], .cons ?_ .nil, by rw [List.sum_singleton]⟩
    rw [digitsInside_eq is is']
    exact speaks_suffix few range.once
  · next beside => exact ⟨[], .nil, by rw [digitsInside_none beside, zero_mul, List.sum_nil]⟩

/-- An end's first digit and what may follow it. -/
theorem speaks_end {text : Text} {language : Language Char} (speaks : Speaks .sequence text language) :
    Speaks .sequence (quotedLiteral [first] ++ ' ' :: text) ({[first]} * language) :=
  (Speaks.literal [first]).once.followed speaks.blank (.inr rfl)

/-- The choices below a prefix. -/
theorem speaks_body {below above : Text} {languageLow languageHigh : Language Char} {count : ℕ} (few : count ≤ 16)
    (is : first.isDigit = true) (is' : last.isDigit = true) (speaks : Speaks .sequence below languageLow)
    (speaks' : Speaks .sequence above languageHigh) :
    Speaks .atom ('(' :: (bars (quotedLiteral [first] ++ ' ' :: below)
        ((if first.toNat + 1 < last.toNat then [digitRange (following first) (preceding last) ++ suffix count] else []) ++
          [quotedLiteral [last] ++ ' ' :: above]) ++ [')']))
      ({[first]} * languageLow + (digitsInside first last * digit ^ count + {[last]} * languageHigh)) := by
  obtain ⟨languages, each, sum⟩ := speaks_inside few is is'
  have others := List.rel_append each (List.Forall₂.cons (@speaks_end last _ _ speaks') .nil)
  have choices := speaks_bars (@speaks_end first _ _ speaks) others
  rw [List.sum_append, sum, List.sum_singleton] at choices
  exact choices.group

/-- What is said of the rest of a width, which may be nothing. -/
theorem speaks_rest {text : Text} {count : ℕ} (long : low.length = count) (long' : high.length = count)
    (digits : AllDigits low)
    (range : ∀ text, sameWidthDecimalRange low high = .ok text → Speaks .sequence text (between low high))
    (is : (if count = 0 then .ok [] else sameWidthDecimalRange low high) = Except.ok text) :
    Speaks .sequence text (between low high) := by
  split at is
  · next none =>
    cases is
    obtain rfl := List.length_eq_zero_iff.mp (long.trans none)
    obtain rfl := List.length_eq_zero_iff.mp (long'.trans none)
    rw [between_self digits]
    exact Speaks.empty fun _ mem => by cases mem
  · exact range text is

/-- The expression for a range of one width accepts the texts of that width between its ends. -/
theorem speaks_sameWidth {lower upper text : Text} (few : lower.length ≤ 16) (digits : AllDigits lower)
    (digits' : AllDigits upper)
    (is : sameWidthDecimalRange lower upper = .ok text) : Speaks .sequence text (between lower upper) := by
  induction size : lower.length using Nat.strong_induction_on generalizing lower upper text with
  | h size ih =>
    rw [sameWidthDecimalRange] at is
    split at is
    · cases is
    · next ordered =>
      rw [Bool.or_eq_true, decide_eq_true_eq, not_or, not_not, Bool.not_eq_true] at ordered
      obtain ⟨long, ordered⟩ := ordered
      split at is
      · next same =>
        cases is
        rw [← same, between_self digits]
        exact (Speaks.literal lower).once.alone
      · next differ =>
        split at is
        · next all =>
          rw [Bool.and_eq_true] at all
          cases is
          have zeros := eq_replicate_of_all all.1
          have nines := eq_replicate_of_all all.2
          have whole : between lower upper = digit ^ lower.length := by
            rw [zeros, nines, ← long, between_all, List.length_replicate]
          rw [whole]
          split
          · next one =>
            rw [one, pow_one]
            exact speaks_digit.once.alone
          · exact (speaks_digits few).alone
        · split at is
          · next power =>
            rw [Bool.and_eq_true, Bool.and_eq_true, beq_iff_eq] at power
            obtain ⟨⟨one, zeros⟩, nines⟩ := power
            obtain ⟨tail, rfl⟩ := List.head?_eq_some_iff.mp one
            have whole : between ('1' :: tail) upper = digitsBetween '1' '9' * digit ^ tail.length := by
              have wide : upper = List.replicate (tail.length + 1) '9' := by
                rw [eq_replicate_of_all nines, ← long, List.length_cons]
              have narrow : tail = List.replicate tail.length '0' := eq_replicate_of_all zeros
              rw [← between_power, ← wide, ← narrow]
            cases is
            rw [whole]
            have tail_few : tail.length ≤ 16 := by
              rw [List.length_cons] at few
              lia
            have first := (@speaks_digitRange '1' '9' rfl rfl (by decide)).once
            rw [List.length_cons]
            split
            · next alone =>
              rw [Nat.succ.inj alone, pow_zero, mul_one]
              exact first.alone
            · split
              · next two =>
                rw [Nat.succ.inj two, pow_one]
                exact first.followed speaks_digit.once.alone.blank (.inr rfl)
              · exact first.followed (speaks_digits tail_few).alone.blank (.inr rfl)
          · dsimp only at is
            obtain ⟨shared, apart⟩ := common_prefix lower upper
            generalize ((lower.zip upper).takeWhile fun both => both.1 == both.2).length = common at *
            split at is
            · next first low last high lowerTail upperTail =>
              obtain ⟨below, rest, is⟩ := bind_eq_ok_iff.mp is
              obtain ⟨above, rest', is⟩ := bind_eq_ok_iff.mp is
              have lower_eq : lower = lower.take common ++ first :: low := by rw [← lowerTail, List.take_append_drop]
              have upper_eq : upper = lower.take common ++ last :: high := by rw [shared, ← upperTail, List.take_append_drop]
              have tails : low.length = high.length := by
                have both := long
                rw [lower_eq, upper_eq] at both
                simpa using both
              rw [lower_eq] at digits few size
              rw [upper_eq] at digits'
              rw [List.length_append, List.length_cons] at few size
              obtain ⟨digitsShared, digitsLower⟩ := allDigits_append.mp digits
              obtain ⟨-, digitsUpper⟩ := allDigits_append.mp digits'
              have ascending : first.toNat < last.toNat := by
                have not_less := (stringLess_iff digits' digits (by simp [tails])).not.mp (by
                  rw [← lower_eq, ← upper_eq, ordered]
                  exact Bool.false_ne_true)
                rw [Nat.not_lt, value_append, value_append, List.length_cons, List.length_cons, tails] at not_less
                have heads := (value_cons_le digitsLower digitsUpper tails).mp (by lia)
                exact heads.resolve_right fun same => apart first low last high lowerTail upperTail same.1
              have digitsLow := (allDigits_cons.mp digitsLower).2
              have digitsHigh := (allDigits_cons.mp digitsUpper).2
              have nines : AllDigits (List.replicate low.length '9') := allDigits_replicate rfl _
              have zeros : AllDigits (List.replicate low.length '0') := allDigits_replicate rfl _
              have speaksBelow := speaks_rest rfl List.length_replicate digitsLow (fun text range =>
                ih low.length (by lia) (by lia) digitsLow nines range rfl) rest
              have speaksAbove := speaks_rest List.length_replicate tails.symm zeros (fun text range =>
                ih low.length (by lia) (by rw [List.length_replicate]; lia) zeros digitsHigh range
                  List.length_replicate) rest'
              have body := speaks_body (show low.length ≤ 16 by lia) (allDigits_cons.mp digitsLower).1
                (allDigits_cons.mp digitsUpper).1 speaksBelow speaksAbove
              rw [← between_cons digitsLower digitsUpper tails ascending] at body
              rw [lower_eq, upper_eq, between_append digitsShared (by simp [tails]) digitsLower digitsUpper]
              cases is
              split
              · next empty =>
                have nothing : ({[]} : Language Char) = 1 := rfl
                rw [List.isEmpty_iff.mp empty, nothing, one_mul]
                exact body.once.alone
              · exact (Speaks.literal _).once.followed body.once.alone.blank (.inr rfl)
            · cases is

end Choices

end Muser.Schema
