import Muser.Gbnf.Speaking
import Muser.Lib.Check
import Muser.Lib.Decimal

/-! # The expression for a range of integers

A range is cut by its sign and by the number of digits, and a range of one width by the prefix that its
ends share: below the prefix the ends have their own first digit, and any digits follow those between.
The bounds are 64-bit integers; nothing is computed from them that leaves 64 bits.
-/

namespace Muser.Schema

open Gbnf

/-- A number that repeats what stands before it. -/
def braces (count : ℕ) : Text := '{' :: (Nat.toDigits 10 count ++ ['}'])

/-- A class of the digits between two. -/
def digitRange (lower upper : Char) : Text := ['[', lower, '-', upper, ']']

def following (character : Char) : Char := Char.ofNat (character.toNat + 1)

def preceding (character : Char) : Char := Char.ofNat (character.toNat - 1)

/-- Any digits behind a digit. -/
def suffix (count : ℕ) : Text :=
  if count = 0 then []
  else if count = 1 then ' ' :: digitRange '0' '9'
  else ' ' :: (digitRange '0' '9' ++ braces count)

def sameWidthDecimalRange (lower upper : Text) : Except String Text :=
  if lower.length ≠ upper.length || stringLess upper lower then .error "decimal range endpoints differ in width or order"
  else if lower = upper then .ok (quotedLiteral lower)
  else if lower.all (· == '0') && upper.all (· == '9') then
    .ok (if lower.length = 1 then digitRange '0' '9' else digitRange '0' '9' ++ braces lower.length)
  else if lower.head? == some '1' && lower.tail.all (· == '0') && upper.all (· == '9') then
    .ok (if lower.length = 1 then digitRange '1' '9'
      else if lower.length = 2 then digitRange '1' '9' ++ ' ' :: digitRange '0' '9'
      else digitRange '1' '9' ++ ' ' :: (digitRange '0' '9' ++ braces (lower.length - 1)))
  else
    let common := ((lower.zip upper).takeWhile fun both => both.1 == both.2).length
    match _lowerTail : lower.drop common, upper.drop common with
    | lowerDigit :: lowSuffix, upperDigit :: highSuffix => do
      let remaining := lowSuffix.length
      let low ← (if remaining = 0 then .ok [] else sameWidthDecimalRange lowSuffix (List.replicate remaining '9'))
      let high ← (if remaining = 0 then .ok [] else sameWidthDecimalRange (List.replicate remaining '0') highSuffix)
      let between :=
        if lowerDigit.toNat + 1 < upperDigit.toNat then
          [digitRange (following lowerDigit) (preceding upperDigit) ++ suffix remaining]
        else []
      let body := '(' :: (bars (quotedLiteral [lowerDigit] ++ ' ' :: low)
        (between ++ [quotedLiteral [upperDigit] ++ ' ' :: high]) ++ [')'])
      .ok (if (lower.take common).isEmpty then body else quotedLiteral (lower.take common) ++ ' ' :: body)
    | _, _ => .error "index out of bounds"
termination_by lower.length
decreasing_by
  · have shorter := congrArg List.length _lowerTail
    rw [List.length_drop, List.length_cons] at shorter
    omega
  · have shorter := congrArg List.length _lowerTail
    rw [List.length_drop, List.length_cons] at shorter
    rw [List.length_replicate]
    omega

def maxPinnedInteger : ℕ := 9999999999999999

/-- A power of ten in 64 bits. -/
def checkedPow (exponent : ℕ) : Except String ℕ :=
  if 10 ^ exponent < 2 ^ 64 then .ok (10 ^ exponent) else .error "integer bound is too wide"

/-- The part of a range that has so many digits. -/
def widthRange (minimum : ℕ) (maximum : Option ℕ) (digits : ℕ) : Except String (List Text) := do
  let floor ← (if digits = 1 then .ok 0 else checkedPow (digits - 1))
  let power ← checkedPow digits
  let ceiling := power - 1
  let lower := max minimum floor
  let upper := min (maximum.getD ceiling) ceiling
  if lower ≤ upper then
    let range ← sameWidthDecimalRange (Nat.toDigits 10 lower) (Nat.toDigits 10 upper)
    .ok [range]
  else .ok []

def decimalRangeGbnf (minimum : ℕ) (maximum : Option ℕ) : Except String Text := do
  reject (maximum.any fun maximum => maximum < minimum) "descending integer range"
  reject (maxPinnedInteger < minimum) "integer bound exceeds pinned 16-digit grammar"
  let maximum := maximum.map fun value => min value maxPinnedInteger
  let minimumDigits := (Nat.toDigits 10 minimum).length
  let maximumDigits := maximum.elim 16 fun value => (Nat.toDigits 10 value).length
  let alternatives ← (List.range' minimumDigits (maximumDigits + 1 - minimumDigits)).mapM (widthRange minimum maximum)
  match alternatives.flatten with
  | [] => .error "integer range has no pinned 16-digit values"
  | first :: others => .ok (bars first others)

/-- The smallest magnitude of a negative number in a range. -/
def smallestAbs (maximum : Option ℤ) : ℕ := maximum.elim 0 fun maximum => if maximum < 0 then maximum.natAbs else 0

/-- The negative numbers of a range, behind their sign. -/
def negativePart (minimum maximum : Option ℤ) : Except String (List Text) :=
  if minimum.all fun value => value < 0 then do
    let magnitude ← decimalRangeGbnf (smallestAbs maximum) ((minimum.filter fun value => value < 0).map Int.natAbs)
    .ok [quotedLiteral ['-'] ++ ' ' :: '(' :: (magnitude ++ [')'])]
  else .ok []

def positivePart (minimum maximum : Option ℤ) : Except String (List Text) :=
  if maximum.all fun value => 0 ≤ value then do
    let range ← decimalRangeGbnf (minimum.elim 0 fun value => (max value 0).toNat)
      ((maximum.filter fun value => 0 ≤ value).map Int.toNat)
    .ok [range]
  else .ok []

def boundedIntegerGbnf (minimum maximum : Option ℤ) : Except String Text := do
  let negative ← negativePart minimum maximum
  let positive ← positivePart minimum maximum
  match negative ++ positive with
  | [] => .error "integer range has no values"
  | first :: others => .ok (bars first others)

end Muser.Schema
