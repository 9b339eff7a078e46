import Muser.Schema.Ranges

/-! # Bounded integers are exact

The expression for a range accepts the canonical integers of the range that have at most sixteen digits,
and a zero with a sign where the range has a zero and goes below it.
-/

namespace Muser.Schema

open Gbnf Decimal

section Widths

variable {minimum number count : ℕ} {maximum : Option ℕ} {texts : List Text} {text : Text}
  {language language' : Language Char}

/-- Each text of a list speaks, and together they speak a language. -/
def SpeakAll (texts : List Text) (language : Language Char) : Prop :=
  ∃ languages, List.Forall₂ (Speaks .sequence) texts languages ∧ languages.sum = language

theorem speakAll_nil : SpeakAll [] 0 := ⟨[], .nil, rfl⟩

variable {others : List Text} {letters : Text} {widths : List ℕ}

theorem speakAll_append (speak : SpeakAll texts language) (speak' : SpeakAll others language') :
    SpeakAll (texts ++ others) (language + language') := by
  obtain ⟨languages, each, rfl⟩ := speak
  obtain ⟨languages', each', rfl⟩ := speak'
  exact ⟨languages ++ languages', List.rel_append each each', List.sum_append⟩

theorem speakAll_single (speaks : Speaks .sequence text language) : SpeakAll [text] language :=
  ⟨[language], .cons speaks .nil, List.sum_singleton⟩

/-- Alternatives that are each a text of bars speak together. -/
theorem SpeakAll.bars (speak : SpeakAll (text :: others) language) : Speaks .alternatives (bars text others) language := by
  obtain ⟨languages, each, rfl⟩ := speak
  cases each with
  | cons first rest =>
    rw [List.sum_cons]
    exact speaks_bars first rest

/-- How many digits a number has. -/
theorem length_toDigits_eq_iff (positive : 1 ≤ count) :
    (Nat.toDigits 10 number).length = count ↔ (count = 1 ∨ 10 ^ (count - 1) ≤ number) ∧ number < 10 ^ count := by
  have most := Nat.length_toDigits_le_iff (b := 10) (n := number) (k := count) (by decide) positive
  constructor
  · rintro rfl
    refine ⟨?_, most.mp (le_refl _)⟩
    by_cases one : (Nat.toDigits 10 number).length = 1
    · exact .inl one
    · refine .inr ?_
      have fewer := (Nat.length_toDigits_le_iff (b := 10) (n := number) (k :=
        (Nat.toDigits 10 number).length - 1) (by decide) (by omega)).not.mp
        (by omega)
      omega
  · rintro ⟨large, small⟩
    refine le_antisymm (most.mpr small) ?_
    have some_ := Nat.length_toDigits_pos (b := 10) (n := number)
    rcases large with rfl | large
    · exact some_
    · by_contra fewer
      have less := (Nat.length_toDigits_le_iff (b := 10) (n := number) (k := count - 1) (by decide) (by omega)).mp (by omega)
      omega

theorem length_toDigits_mono {other : ℕ} (less : number ≤ other) :
    (Nat.toDigits 10 number).length ≤ (Nat.toDigits 10 other).length := by
  have some_ := Nat.length_toDigits_pos (b := 10) (n := other)
  refine (Nat.length_toDigits_le_iff (by decide) some_).mpr ?_
  exact Nat.lt_of_le_of_lt less ((Nat.length_toDigits_le_iff (by decide) some_).mp (le_refl _))

theorem checkedPow_ok {power : ℕ} (is : checkedPow count = .ok power) : power = 10 ^ count := by
  rw [checkedPow] at is
  split at is <;> cases is
  rfl

/-- The numbers of a range that have so many digits. -/
def widthNumbers (minimum : ℕ) (maximum : Option ℕ) (count : ℕ) : Language Char :=
  {letters | ∃ number, letters = Nat.toDigits 10 number ∧ minimum ≤ number ∧ (∀ most, maximum = some most → number ≤ most) ∧
    (Nat.toDigits 10 number).length = count}

theorem getD_le_iff {ceiling : ℕ} : number ≤ min (maximum.getD ceiling) ceiling ↔
    (∀ most, maximum = some most → number ≤ most) ∧ number ≤ ceiling := by
  rw [le_min_iff]
  cases maximum with
  | none => exact ⟨fun both => ⟨fun _ known => (by cases known), both.2⟩, fun both => ⟨both.2, both.2⟩⟩
  | some most =>
    refine and_congr_left fun _ => ⟨fun less other same => ?_, fun each => each most rfl⟩
    cases same
    exact less

/-- The texts between two numbers of one width are the numbers between them. -/
theorem between_toDigits {lower upper : ℕ} (positive : 1 ≤ count) (wide : (Nat.toDigits 10 lower).length = count) :
    letters ∈ between (Nat.toDigits 10 lower) (Nat.toDigits 10 upper) ↔
      ∃ number, letters = Nat.toDigits 10 number ∧ lower ≤ number ∧ number ≤ upper ∧
        (Nat.toDigits 10 number).length = count := by
  constructor
  · rintro ⟨size, digits, least, most⟩
    rw [value_toDigits] at least most
    rw [wide] at size
    have leading : letters.length = 1 ∨ 10 ^ (letters.length - 1) ≤ value letters := by
      rw [size]
      exact ((length_toDigits_eq_iff positive).mp wide).1.imp_right fun large => large.trans least
    have same := toDigits_value digits (by rintro rfl; cases size; cases positive) leading
    exact ⟨value letters, same.symm, least, most, by rw [same, size]⟩
  · rintro ⟨number, rfl, least, most, size⟩
    refine ⟨size.trans wide.symm, allDigits_toDigits number, ?_, ?_⟩
    · rw [value_toDigits, value_toDigits]
      exact least
    · rw [value_toDigits, value_toDigits]
      exact most

theorem speakAll_widthRange {ranges : List Text} (positive : 1 ≤ count) (few : count ≤ 16)
    (is : widthRange minimum maximum count = .ok ranges) : SpeakAll ranges (widthNumbers minimum maximum count) := by
  obtain ⟨floor, floored, is⟩ := bind_eq_ok_iff.mp is
  obtain ⟨power, raised, is⟩ := bind_eq_ok_iff.mp is
  obtain rfl := checkedPow_ok raised
  have powers : 0 < 10 ^ count := Nat.pow_pos (by decide)
  -- a number of this many digits is one that is at least the floor and below the power
  have width : ∀ number, (Nat.toDigits 10 number).length = count ↔ floor ≤ number ∧ number ≤ 10 ^ count - 1 := by
    intro number
    rw [length_toDigits_eq_iff positive]
    split at floored
    · next one =>
      cases floored
      refine ⟨fun both => ⟨Nat.zero_le _, by omega⟩, fun both => ⟨.inl one, by omega⟩⟩
    · next several =>
      obtain rfl := checkedPow_ok floored
      exact ⟨fun both => ⟨both.1.resolve_left several, by omega⟩, fun both => ⟨.inr both.1, by omega⟩⟩
  have members : ∀ letters, letters ∈ widthNumbers minimum maximum count ↔ ∃ number, letters = Nat.toDigits 10 number ∧
      max minimum floor ≤ number ∧ number ≤ min (maximum.getD (10 ^ count - 1)) (10 ^ count - 1) ∧
      (Nat.toDigits 10 number).length = count := by
    intro letters
    refine exists_congr fun number => and_congr_right fun _ => ?_
    rw [getD_le_iff, width, max_le_iff]
    tauto
  dsimp only at is
  split at is
  · next ordered =>
    obtain ⟨range, spelled, is⟩ := bind_eq_ok_iff.mp is
    cases is
    have lower_wide : (Nat.toDigits 10 (max minimum floor)).length = count :=
      (width _).mpr ⟨le_max_right _ _, ordered.trans (min_le_right _ _)⟩
    have upper_wide : (Nat.toDigits 10 (min (maximum.getD (10 ^ count - 1)) (10 ^ count - 1))).length = count :=
      (width _).mpr ⟨(le_max_right _ _).trans ordered, min_le_right _ _⟩
    have speaks := speaks_sameWidth (by rw [lower_wide]; exact few) (allDigits_toDigits _) (allDigits_toDigits _) spelled
    have same : between (Nat.toDigits 10 (max minimum floor))
      (Nat.toDigits 10 (min (maximum.getD (10 ^ count - 1)) (10 ^ count - 1))) =
        widthNumbers minimum maximum count := by
      ext letters
      rw [members, between_toDigits positive lower_wide]
    rw [same] at speaks
    exact speakAll_single speaks
  · next crossed =>
    cases is
    have empty : widthNumbers minimum maximum count = 0 := by
      ext letters
      rw [members]
      refine iff_of_false ?_ (Language.notMem_zero letters)
      rintro ⟨number, -, least, most, -⟩
      exact crossed (least.trans most)
    rw [empty]
    exact speakAll_nil

theorem mem_sum_map {words : ℕ → Language Char} :
    letters ∈ (widths.map words).sum ↔ ∃ width ∈ widths, letters ∈ words width := by
  induction widths with
  | nil => exact iff_of_false (Language.notMem_zero letters) fun ⟨_, mem, _⟩ => by cases mem
  | cons width widths ih =>
    rw [List.map_cons, List.sum_cons, Language.mem_add, ih]
    simp only [List.mem_cons, exists_eq_or_imp]

/-- Ranges of several widths speak the numbers of all of them. -/
theorem speakAll_widths {ranges : List (List Text)} (inside : ∀ width ∈ widths, 1 ≤ width ∧ width ≤ 16)
    (each : List.Forall₂ (fun width range => widthRange minimum maximum width = .ok range) widths ranges) :
    SpeakAll ranges.flatten (widths.map (widthNumbers minimum maximum)).sum := by
  induction each with
  | nil => exact speakAll_nil
  | cons first others ih =>
    obtain ⟨positive, few⟩ := inside _ List.mem_cons_self
    rw [List.flatten_cons, List.map_cons, List.sum_cons]
    exact speakAll_append (speakAll_widthRange positive few first) (ih fun width mem =>
      inside width (List.mem_cons_of_mem _ mem))

/-- The numbers from one to another. -/
def decimals (least most : ℕ) : Language Char :=
    {letters | ∃ number, letters = Nat.toDigits 10 number ∧ least ≤ number ∧ number ≤ most}

/-- The expression for a range of numbers accepts those of them that have at most sixteen digits. -/
theorem speaks_decimalRange (is : decimalRangeGbnf minimum maximum = .ok text) :
    Speaks .alternatives text (decimals minimum (min (maximum.getD maxPinnedInteger) maxPinnedInteger)) := by
  obtain ⟨-, is⟩ := check_eq_ok_iff.mp is
  obtain ⟨pinned, is⟩ := check_eq_ok_iff.mp is
  obtain ⟨ranges, each, is⟩ := bind_eq_ok_iff.mp is
  rw [reject_eq_ok_iff, decide_eq_false_iff_not, Nat.not_lt] at pinned
  have sixteen : ∀ number, number ≤ maxPinnedInteger ↔ (Nat.toDigits 10 number).length ≤ 16 := by
    intro number
    rw [Nat.length_toDigits_le_iff (by decide) (by decide), maxPinnedInteger]
    omega
  generalize highest : (maximum.map fun value => min value maxPinnedInteger) = capped at each is
  have bounded : ∀ number, (Nat.toDigits 10 number).length ≤ 16 →
      ((∀ most, capped = some most → number ≤ most) ↔ number ≤ min (maximum.getD maxPinnedInteger) maxPinnedInteger) := by
    intro number short
    rw [getD_le_iff]
    have small := (sixteen number).mpr short
    subst highest
    cases maximum with
    | none => exact iff_of_true (fun _ known => by cases known) ⟨fun _ known => (by cases known), small⟩
    | some most =>
      constructor
      · intro each
        have less := le_min_iff.mp (each _ rfl)
        exact ⟨fun other same => (by cases same; exact less.1), small⟩
      · rintro ⟨each, -⟩ other same
        cases same
        exact le_min (each most rfl) small
  have digitsCapped : ∀ number, (∀ most, capped = some most → number ≤ most) → (Nat.toDigits 10 number).length ≤ 16 →
      (Nat.toDigits 10 number).length ≤ capped.elim 16 fun value => (Nat.toDigits 10 value).length := by
    intro number within short
    cases capped with
    | none => exact short
    | some most => exact length_toDigits_mono (within most rfl)
  have widest : (capped.elim 16 fun value => (Nat.toDigits 10 value).length) ≤ 16 := by
    subst highest
    cases maximum with
    | none => exact le_refl _
    | some most => exact (sixteen _).mp (min_le_right _ _)
  have speak := speakAll_widths (fun width mem => ?_) (forall₂_of_mapM_eq_ok each)
  · have whole : (List.map (widthNumbers minimum capped) (List.range' (Nat.toDigits 10 minimum).length
        ((capped.elim 16 fun value => (Nat.toDigits 10 value).length) + 1 - (Nat.toDigits 10 minimum).length))).sum =
        decimals minimum (min (maximum.getD maxPinnedInteger) maxPinnedInteger) := by
      ext letters
      rw [mem_sum_map]
      constructor
      · rintro ⟨width, mem, number, rfl, least, most, rfl⟩
        have inside := List.mem_range'_1.mp mem
        exact ⟨number, rfl, least, (bounded number (by omega)).mp most⟩
      · rintro ⟨number, rfl, least, most⟩
        have short := (sixteen number).mp (most.trans (min_le_right _ _))
        have within := (bounded number short).mpr most
        have narrow := length_toDigits_mono least
        have wide := digitsCapped number within short
        exact ⟨_, List.mem_range'_1.mpr ⟨narrow, by omega⟩, number, rfl, least, within, rfl⟩
    rw [whole] at speak
    split at is
    · cases is
    · next first others same =>
      cases is
      rw [same] at speak
      exact speak.bars
  · have inside := List.mem_range'_1.mp mem
    have some_ := Nat.length_toDigits_pos (b := 10) (n := minimum)
    omega

end Widths

section Signs

variable {minimum maximum : Option ℤ} {text : Text}

/-- An integer as it is written. -/
def integerText (number : ℤ) : Text :=
  if number < 0 then '-' :: Nat.toDigits 10 number.natAbs else Nat.toDigits 10 number.natAbs

/-- An integer between the bounds, where there are any. -/
def Within (minimum maximum : Option ℤ) (number : ℤ) : Prop :=
  (∀ least, minimum = some least → least ≤ number) ∧ ∀ most, maximum = some most → number ≤ most

/-- What the expression for a range is to accept. -/
inductive InRange (minimum maximum : Option ℤ) (text : Text) : Prop
  | canonical (number : ℤ) (written : text = integerText number) (within : Within minimum maximum number)
      (short : (Nat.toDigits 10 number.natAbs).length ≤ 16)
  | negativeZero (written : text = ['-', '0']) (zero : Within minimum maximum 0)
      (below : minimum = none ∨ ∃ number < 0, Within minimum maximum number)

/-- The texts of a range with a sign. -/
def negatives (minimum maximum : Option ℤ) : Language Char :=
  {letters | (∀ least, minimum = some least → least < 0) ∧ ∃ number : ℕ, letters = '-' :: Nat.toDigits 10 number ∧
    (Nat.toDigits 10 number).length ≤ 16 ∧ Within minimum maximum (-number)}

/-- The texts of a range without a sign. -/
def positives (minimum maximum : Option ℤ) : Language Char :=
  {letters | ∃ number : ℕ, letters = Nat.toDigits 10 number ∧ (Nat.toDigits 10 number).length ≤ 16 ∧
    Within minimum maximum number}

theorem length_le_sixteen {number : ℕ} : (Nat.toDigits 10 number).length ≤ 16 ↔ number ≤ maxPinnedInteger := by
  rw [Nat.length_toDigits_le_iff (by decide) (by decide), maxPinnedInteger]
  lia

/-- The magnitudes of the negative numbers of a range. -/
theorem magnitude_iff (allowed : (minimum.all fun value => decide (value < 0)) = true) (number : ℕ) :
    (smallestAbs maximum ≤ number ∧
        number ≤ min (((minimum.filter fun value => decide (value < 0)).map Int.natAbs).getD maxPinnedInteger)
          maxPinnedInteger) ↔
      number ≤ maxPinnedInteger ∧ Within minimum maximum (-number) := by
  have smallest : smallestAbs maximum ≤ number ↔ ∀ most, maximum = some most → -(number : ℤ) ≤ most := by
    cases maximum with
    | none => simp [smallestAbs]
    | some most =>
      simp only [smallestAbs, Option.elim_some, Option.some.injEq, forall_eq']
      split <;> lia
  have largest : (∀ most, ((minimum.filter fun value => decide (value < 0)).map Int.natAbs) = some most → number ≤ most) ↔
      ∀ least, minimum = some least → least ≤ -(number : ℤ) := by
    cases minimum with
    | none => simp
    | some least =>
      have negative : least < 0 := by simpa using allowed
      simp only [Option.filter_some, decide_eq_true negative, if_true, Option.map_some, Option.some.injEq, forall_eq']
      lia
  rw [getD_le_iff, largest, smallest, Within]
  tauto

theorem speaks_negativePart {texts : List Text} (is : negativePart minimum maximum = .ok texts) :
    (texts = [] ∧ negatives minimum maximum = 0) ∨ ∃ text,
      texts = [text] ∧ Speaks .sequence text (negatives minimum maximum) := by
  rw [negativePart] at is
  split at is
  · next allowed =>
    obtain ⟨magnitude, range, is⟩ := bind_eq_ok_iff.mp is
    cases is
    have speaks := (Speaks.literal ['-']).once.followed (speaks_decimalRange range).group.once.alone.blank (.inr rfl)
    have below : ∀ least, minimum = some least → least < 0 := by
      rintro least rfl
      simpa using allowed
    have same : {['-']} * decimals (smallestAbs maximum)
        (min (((minimum.filter fun value => decide (value < 0)).map Int.natAbs).getD maxPinnedInteger) maxPinnedInteger) =
        negatives minimum maximum := by
      ext letters
      rw [Language.mem_mul]
      constructor
      · rintro ⟨_, rfl, _, ⟨number, rfl, bounds⟩, rfl⟩
        obtain ⟨short, within⟩ := (magnitude_iff allowed number).mp bounds
        exact ⟨below, number, rfl, length_le_sixteen.mpr short, within⟩
      · rintro ⟨-, number, rfl, short, within⟩
        exact ⟨['-'], rfl, _, ⟨number, rfl, (magnitude_iff allowed number).mpr ⟨length_le_sixteen.mp short, within⟩⟩, rfl⟩
    rw [same] at speaks
    exact .inr ⟨_, rfl, speaks⟩
  · next refused =>
    cases is
    have empty : negatives minimum maximum = 0 := by
      ext letters
      refine iff_of_false ?_ (Language.notMem_zero letters)
      rintro ⟨below, -⟩
      refine refused ?_
      cases minimum with
      | none => rfl
      | some least => simpa using below least rfl
    exact .inl ⟨rfl, empty⟩

/-- The other numbers of a range. -/
theorem number_iff (allowed : (maximum.all fun value => decide (0 ≤ value)) = true) (number : ℕ) :
    (minimum.elim 0 (fun value => (max value 0).toNat) ≤ number ∧
        number ≤ min (((maximum.filter fun value => decide (0 ≤ value)).map Int.toNat).getD maxPinnedInteger)
          maxPinnedInteger) ↔
      number ≤ maxPinnedInteger ∧ Within minimum maximum number := by
  have smallest : minimum.elim 0 (fun value => (max value 0).toNat) ≤ number ↔ ∀ least,
      minimum = some least → least ≤ (number : ℤ) := by
    cases minimum with
    | none => simp
    | some least =>
      simp only [Option.elim_some, Option.some.injEq, forall_eq']
      lia
  have largest : (∀ most, ((maximum.filter fun value => decide (0 ≤ value)).map Int.toNat) = some most → number ≤ most) ↔
      ∀ most, maximum = some most → (number : ℤ) ≤ most := by
    cases maximum with
    | none => simp
    | some most =>
      have positive : 0 ≤ most := by simpa using allowed
      simp only [Option.filter_some, decide_eq_true positive, if_true, Option.map_some, Option.some.injEq, forall_eq']
      lia
  rw [getD_le_iff, largest, smallest, Within]
  tauto

theorem speaks_positivePart {texts : List Text} (is : positivePart minimum maximum = .ok texts) :
    (texts = [] ∧ positives minimum maximum = 0) ∨ ∃ text,
      texts = [text] ∧ Speaks .alternatives text (positives minimum maximum) := by
  rw [positivePart] at is
  split at is
  · next allowed =>
    obtain ⟨range, spelled, is⟩ := bind_eq_ok_iff.mp is
    cases is
    have speaks := speaks_decimalRange spelled
    have same : decimals (minimum.elim 0 fun value => (max value 0).toNat)
        (min (((maximum.filter fun value => decide (0 ≤ value)).map Int.toNat).getD maxPinnedInteger) maxPinnedInteger) =
        positives minimum maximum := by
      ext letters
      refine exists_congr fun number => and_congr_right fun _ => ?_
      rw [length_le_sixteen]
      exact number_iff allowed number
    rw [same] at speaks
    exact .inr ⟨_, rfl, speaks⟩
  · next refused =>
    cases is
    have empty : positives minimum maximum = 0 := by
      ext letters
      refine iff_of_false ?_ (Language.notMem_zero letters)
      rintro ⟨number, -, -, within⟩
      refine refused ?_
      cases maximum with
      | none => rfl
      | some most =>
        have less := within.2 most rfl
        rw [Option.all_some, decide_eq_true_eq]
        omega
    exact .inl ⟨rfl, empty⟩

/-- The texts of a range are those with a sign and those without. -/
theorem mem_signs_iff : text ∈ negatives minimum maximum + positives minimum maximum ↔ InRange minimum maximum text := by
  rw [Language.mem_add]
  constructor
  · rintro (⟨below, number, rfl, short, within⟩ | ⟨number, rfl, short, within⟩)
    · cases number with
      | zero =>
        refine .negativeZero rfl within ?_
        cases minimum with
        | none => exact .inl rfl
        | some least =>
          refine .inr ⟨least, below least rfl, fun other same => ?_, fun most same => ?_⟩
          · cases same
            exact le_refl _
          · exact (below least rfl).le.trans (within.2 most same)
      | succ number =>
        have negative : -((number + 1 : ℕ) : ℤ) < 0 := by lia
        have size : (-((number + 1 : ℕ) : ℤ)).natAbs = number + 1 := by lia
        refine .canonical (-((number + 1 : ℕ) : ℤ)) ?_ within (by rw [size]; exact short)
        rw [integerText, if_pos negative, size]
    · have positive : ¬(number : ℤ) < 0 := by lia
      refine .canonical number ?_ within (by rw [Int.natAbs_natCast]; exact short)
      rw [integerText, if_neg positive, Int.natAbs_natCast]
  · rintro (⟨number, rfl, within, short⟩ | ⟨rfl, zero, below⟩)
    · rw [integerText]
      split
      · next negative =>
        have same : -(number.natAbs : ℤ) = number := by lia
        refine .inl ⟨fun least is => ?_, number.natAbs, rfl, short, by rw [same]; exact within⟩
        exact lt_of_le_of_lt (within.1 least is) negative
      · next positive =>
        have same : (number.natAbs : ℤ) = number := by lia
        exact .inr ⟨number.natAbs, rfl, short, by rw [same]; exact within⟩
    · refine .inl ⟨fun least is => ?_, 0, rfl, by decide, zero⟩
      rcases below with rfl | ⟨number, negative, within⟩
      · cases is
      · exact lt_of_le_of_lt (within.1 least is) negative

theorem speaks_boundedInteger (is : boundedIntegerGbnf minimum maximum = .ok text) :
    Speaks .alternatives text {letters | InRange minimum maximum letters} := by
  have whole : ({letters | InRange minimum maximum letters} : Language Char) = negatives minimum maximum +
      positives minimum maximum :=
    Set.ext fun letters => mem_signs_iff.symm
  rw [whole]
  obtain ⟨negative, first, is⟩ := bind_eq_ok_iff.mp is
  obtain ⟨positive, second, is⟩ := bind_eq_ok_iff.mp is
  rcases speaks_negativePart first with ⟨rfl, none⟩ | ⟨below, rfl, speaks⟩
  · rw [none, zero_add]
    rcases speaks_positivePart second with ⟨rfl, -⟩ | ⟨above, rfl, speaks'⟩
    · cases is
    · cases is
      exact speaks'
  · rcases speaks_positivePart second with ⟨rfl, none⟩ | ⟨above, rfl, speaks'⟩
    · cases is
      rw [none, add_zero]
      exact speaks.one
    · cases is
      exact speaks.choice speaks'

end Signs

/-- A grammar of one rule. -/
def rootRule (expression : Text) : Text := "root".toList ++ " ::=".toList ++ (' ' :: expression) ++ ['\n']

/-- The grammar of a text has a word as what its text says. -/
def Accepts (source word : Text) : Prop :=
  ∃ definitions, SpelledDefinitions definitions (Utf8.encodeAll source) ∧
    Means definitions (.name "root") (word.map .character)

theorem root_named : "root".toList ≠ [] ∧ ∀ character ∈ "root".toList, inName character = true := by
  have letters : "root".toList = ['r', 'o', 'o', 't'] := by simp
  rw [letters, ← List.all_eq_true]
  exact ⟨List.cons_ne_nil _ _, rfl⟩

def rootLine (alternatives : Phrase .alternatives) (expression : Text) : Line :=
    ⟨"root".toList, alternatives, ' ' :: expression⟩

theorem rootLine_definition (alternatives : Phrase .alternatives) (expression : Text) :
    (rootLine alternatives expression).definition = ("root", alternatives) := rfl

theorem rootRule_spelled {expression : Text} {alternatives : Phrase .alternatives}
    (written : Written alternatives expression) :
    SpelledDefinitions [("root", alternatives)] (Utf8.encodeAll (rootRule expression)) := by
  have fits : ∀ line ∈ [rootLine alternatives expression], line.Fits :=
    List.forall_mem_singleton.mpr ⟨root_named.1, root_named.2, written.blank⟩
  have lines := spelled_lines fits [] (.inl rfl)
  have same : [rootLine alternatives expression].flatMap Line.text = rootRule expression := List.append_nil _
  rewrite [same, List.map_singleton, rootLine_definition, List.nil_append] at lines
  exact lines

theorem rootRule_distinct {alternatives : Phrase .alternatives} (refers : alternatives.refers = []) :
    Definitions.Distinct [("root", alternatives)] := by
  have own : ∀ line ∈ [rootLine alternatives []], line.Own := by
    refine List.forall_mem_singleton.mpr fun name mem => ?_
    have only : name ∈ ["root"] := by
      have all : name ∈ "root" :: alternatives.refers := mem
      rwa [refers] at all
    rw [List.mem_singleton.mp only]
    decide
  exact distinct_of_own own

/-- A rule whose expression speaks a language accepts its words, and so does the grammar that is parsed from it. -/
theorem accepts_iff {expression : Text} {language : Language Char} (speaks : Speaks .alternatives expression language)
    (word : Text) :
    (Accepts (rootRule expression) word ↔ word ∈ language) ∧
      ∀ grammar, parse (rootRule expression) "root" = some (.ok grammar) →
        (grammar.Derives grammar.root (word.map .character) ↔ word ∈ language) := by
  obtain ⟨alternatives, written, refers, means⟩ := speaks
  have spelled := rootRule_spelled written
  have speaking : Means [("root", alternatives)] (.name "root") (word.map .character) ↔ word ∈ language := by
    constructor
    · intro named
      cases named with
      | name defined inside =>
        cases List.mem_singleton.mp defined
        obtain ⟨letters, mem, same⟩ := (means _ _).mp inside
        rwa [List.map_injective_iff.mpr (fun _ _ same => Input.character.inj same) same]
    · intro mem
      exact .name (List.mem_singleton_self _) ((means _ _).mpr ⟨word, mem, rfl⟩)
  constructor
  · rw [← speaking]
    constructor
    · rintro ⟨definitions, spelled', named⟩
      rwa [← spelled'.unique spelled]
    · exact fun named => ⟨_, spelled, named⟩
  · intro grammar parsed
    rw [parse_derives_iff parsed spelled (rootRule_distinct refers) (by simp [Definitions.writes]), speaking]

/-- The expression that is generated for bounds accepts the integers between them, and nothing else. -/
theorem bounded_integer_exact {minimum maximum : Option ℤ} {expression : Text}
    (generated : boundedIntegerGbnf minimum maximum = .ok expression) (word : Text) :
    (Accepts (rootRule expression) word ↔ InRange minimum maximum word) ∧
      ∀ grammar, parse (rootRule expression) "root" = some (.ok grammar) →
        (grammar.Derives grammar.root (word.map .character) ↔ InRange minimum maximum word) :=
  accepts_iff (speaks_boundedInteger generated) word

/-- The bounds of a range that has a zero with a sign. -/
theorem bounded_integer_exact_seven : ∃ expression, boundedIntegerGbnf (some (-7)) (some 120) = .ok expression ∧
    (Accepts (rootRule expression) ['-', '0'] ↔ InRange (some (-7)) (some 120) ['-', '0']) := by
  have generated : (boundedIntegerGbnf (some (-7)) (some 120)).toOption.isSome := by decide +kernel
  obtain ⟨expression, is⟩ := Option.isSome_iff_exists.mp generated
  rw [toOption_eq_some_iff] at is
  exact ⟨expression, is, (bounded_integer_exact is ['-', '0']).1⟩

end Muser.Schema
