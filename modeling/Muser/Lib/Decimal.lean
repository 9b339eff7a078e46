import Mathlib.Data.Nat.Init
import Muser.Lib.Text

/-! # Numbers as texts of digits

The value of a text of digits. Among texts of one length the order of the values is that of strings,
and a text without leading zeros is what its value is written as.
-/

namespace Muser

/-- The order of strings. -/
def stringLess : Text → Text → Bool
  | _, [] => false
  | [], _ :: _ => true
  | first :: rest, first' :: rest' => first.toNat < first'.toNat || (first == first' && stringLess rest rest')

namespace Decimal

def value (text : Text) : ℕ := Nat.ofDigitChars 10 text 0

def AllDigits (text : Text) : Prop := ∀ character ∈ text, character.isDigit = true

variable {text other rest : Text} {character : Char}

theorem allDigits_cons : AllDigits (character :: rest) ↔ character.isDigit = true ∧ AllDigits rest := List.forall_mem_cons

theorem allDigits_append : AllDigits (text ++ rest) ↔ AllDigits text ∧ AllDigits rest := List.forall_mem_append

theorem allDigits_replicate (is : character.isDigit = true) (count : ℕ) : AllDigits (List.replicate count character) :=
  fun _ mem => (List.eq_of_mem_replicate mem).symm ▸ is

theorem allDigits_toDigits (number : ℕ) : AllDigits (Nat.toDigits 10 number) := fun _ mem =>
  Nat.isDigit_of_mem_toDigits (by decide) (by decide) mem

theorem toNat_digit (is : character.isDigit = true) : 48 ≤ character.toNat ∧ character.toNat ≤ 57 := by
  rw [Char.isDigit, Bool.and_eq_true, decide_eq_true_eq, decide_eq_true_eq] at is
  exact ⟨UInt32.le_iff_toNat_le.mp is.1, UInt32.le_iff_toNat_le.mp is.2⟩

theorem value_cons (character : Char) (rest : Text) :
    value (character :: rest) = 10 ^ rest.length * (character.toNat - 48) + value rest := by
  rw [value, Nat.ofDigitChars_cons, Nat.ofDigitChars_eq_ofDigitChars_zero, value]
  simp

theorem value_append (text rest : Text) : value (text ++ rest) = 10 ^ rest.length * value text + value rest := by
  rw [value, Nat.ofDigitChars_append, Nat.ofDigitChars_eq_ofDigitChars_zero, value, value]

@[simp] theorem value_toDigits (number : ℕ) : value (Nat.toDigits 10 number) = number := Nat.ofDigitChars_ten_toDigits

theorem value_lt (digits : AllDigits text) : value text < 10 ^ text.length := by
  induction text with
  | nil => decide
  | cons first rest ih =>
    obtain ⟨digit, digits⟩ := allDigits_cons.mp digits
    have small := (toNat_digit digit).2
    have tail := ih digits
    rw [value_cons, List.length_cons, Nat.pow_succ]
    have head : 10 ^ rest.length * (first.toNat - 48) ≤ 10 ^ rest.length * 9 := Nat.mul_le_mul_left _ (by omega)
    omega

theorem value_zeros (count : ℕ) : value (List.replicate count '0') = 0 := by
  rw [value, Nat.ofDigitChars_replicate_zero, Nat.mul_zero]

theorem value_nines (count : ℕ) : value (List.replicate count '9') + 1 = 10 ^ count := by
  induction count with
  | zero => rfl
  | succ count ih =>
    have nine : '9'.toNat - 48 = 9 := rfl
    rw [List.replicate_succ, value_cons, List.length_replicate, nine, Nat.pow_succ]
    omega

/-- The first digit decides, and where it does not the rest does. -/
theorem value_cons_lt {first first' : Char} (digits : AllDigits (first :: text)) (digits' : AllDigits (first' :: other))
    (long : text.length = other.length) : value (first :: text) < value (first' :: other) ↔
      first.toNat < first'.toNat ∨ (first = first' ∧ value text < value other) := by
  obtain ⟨digit, digits⟩ := allDigits_cons.mp digits
  obtain ⟨digit', digits'⟩ := allDigits_cons.mp digits'
  have low := toNat_digit digit
  have low' := toNat_digit digit'
  have small := value_lt digits
  have small' := value_lt digits'
  rw [long] at small
  rw [value_cons, value_cons, long]
  generalize 10 ^ other.length = power at small small'
  rcases Nat.lt_trichotomy first.toNat first'.toNat with less | same | more
  · refine iff_of_true ?_ (.inl less)
    have step : power * (first.toNat - 48) + power ≤ power * (first'.toNat - 48) := by
      rw [← Nat.mul_succ]
      exact Nat.mul_le_mul_left _ (by omega)
    omega
  · obtain rfl : first = first' := Char.toNat_inj.mp same
    constructor
    · intro less
      exact .inr ⟨rfl, by omega⟩
    · rintro (less | ⟨-, less⟩)
      · exact absurd less (Nat.lt_irrefl _)
      · omega
  · refine iff_of_false ?_ ?_
    · have step : power * (first'.toNat - 48) + power ≤ power * (first.toNat - 48) := by
        rw [← Nat.mul_succ]
        exact Nat.mul_le_mul_left _ (by omega)
      omega
    · rintro (less | ⟨rfl, -⟩)
      · omega
      · exact Nat.lt_irrefl _ more

/-- Texts of one length are ordered as their values. -/
theorem stringLess_iff (digits : AllDigits text) (digits' : AllDigits other) (long : text.length = other.length) :
    stringLess text other = true ↔ value text < value other := by
  induction text generalizing other with
  | nil =>
    obtain rfl := List.length_eq_zero_iff.mp long.symm
    exact iff_of_false Bool.false_ne_true (Nat.lt_irrefl _)
  | cons first rest ih =>
    cases other with
    | nil => cases long
    | cons first' rest' =>
      have long := Nat.succ.inj long
      rw [value_cons_lt digits digits' long, stringLess, Bool.or_eq_true, decide_eq_true_eq, Bool.and_eq_true, beq_iff_eq,
        ih (allDigits_cons.mp digits).2 (allDigits_cons.mp digits').2 long]

/-- Texts of one length with one value are the same. -/
theorem value_injective (digits : AllDigits text) (digits' : AllDigits other) (long : text.length = other.length)
    (same : value text = value other) : text = other := by
  induction text generalizing other with
  | nil => exact (List.length_eq_zero_iff.mp long.symm).symm
  | cons first rest ih =>
    cases other with
    | nil => cases long
    | cons first' rest' =>
      have tails : rest.length = rest'.length := Nat.succ.inj long
      have less := (value_cons_lt digits digits' tails).not.mp (by rw [same]; exact Nat.lt_irrefl _)
      have more := (value_cons_lt digits' digits tails.symm).not.mp (by rw [same]; exact Nat.lt_irrefl _)
      rw [not_or] at less more
      obtain rfl : first = first' := Char.toNat_inj.mp (by omega)
      rw [ih (allDigits_cons.mp digits).2 (allDigits_cons.mp digits').2 tails]
      have first_less : ¬value rest < value rest' := fun is => less.2 ⟨rfl, is⟩
      have first_more : ¬value rest' < value rest := fun is => more.2 ⟨rfl, is⟩
      omega

/-- A text without leading zeros is what its value is written as. -/
theorem toDigits_value (digits : AllDigits text) (some_ : text ≠ [])
    (leading : text.length = 1 ∨ 10 ^ (text.length - 1) ≤ value text) :
    Nat.toDigits 10 (value text) = text := by
  have positive : 0 < text.length := List.length_pos_iff.mpr some_
  have short : (Nat.toDigits 10 (value text)).length ≤ text.length :=
    (Nat.length_toDigits_le_iff (by decide) positive).mpr (value_lt digits)
  have long : text.length ≤ (Nat.toDigits 10 (value text)).length := by
    rcases leading with one | large
    · rw [one]
      exact List.length_pos_iff.mpr Nat.toDigits_ne_nil
    · by_cases one : text.length = 1
      · rw [one]
        exact List.length_pos_iff.mpr Nat.toDigits_ne_nil
      · by_contra shorter
        have less := (Nat.length_toDigits_le_iff (b := 10) (n := value text) (k :=
          text.length - 1) (by decide) (by omega)).mp (by omega)
        omega
  exact value_injective (allDigits_toDigits _) digits (le_antisymm short long) (value_toDigits _)

end Decimal

end Muser
