import Mathlib.Algebra.Order.BigOperators.Group.Finset
import Mathlib.Algebra.Order.Ring.Abs
import Mathlib.Algebra.Order.Ring.Rat
import Muser.Lib.Stores

/-! # Exact contractions

Weights of four bits with a scale of eight bits for sixteen of them. In units of a half and of a 512th the values
are integers, so that a contraction is one sum of integers, each step of which is checked here. The single
precision that is left is a sign and a magnitude, with any rounding.
-/

namespace Muser.Quant.Nvfp4

/-! ## Codes -/

/-- In units of a half. -/
def e2m1Q1 (nibble : UInt8) : ℤ :=
  let magnitude : ℤ :=
    match (nibble &&& 7).toNat with
    | 5 => 6
    | 6 => 8
    | 7 => 12
    | value => value
  if nibble &&& 8 = 0 then magnitude else -magnitude

/-- In units of a 512th; the assertion that it is a number fails as `none`. -/
def e4m3fnQ9 (byte : UInt8) : Option ℤ :=
  let exponent := (byte >>> 3) &&& 0x0f
  let mantissa := byte &&& 7
  if exponent = 0x0f ∧ mantissa = 7 then none
  else
    let magnitude : ℤ := if exponent = 0 then mantissa.toNat else (8 + mantissa).toNat * 2 ^ (exponent - 1).toNat
    some (if byte &&& 0x80 = 0 then magnitude else -magnitude)

def e2m1 : List ℚ := [0, 1 / 2, 1, 3 / 2, 2, 3, 4, 6, 0, -1 / 2, -1, -3 / 2, -2, -3, -4, -6]

def e2m1ToF32 (nibble : UInt8) : ℚ := e2m1.getD (nibble &&& 0x0f).toNat 0

/-- A byte as a number, or none. -/
def e4m3fnToF32 (byte : UInt8) : Option ℚ :=
  let sign : ℚ := if byte &&& 0x80 = 0 then 1 else -1
  let exponent := (byte >>> 3) &&& 0x0f
  let mantissa := byte &&& 7
  if exponent = 0 then some (sign * (mantissa.toNat * (1 / 512)))
  else if exponent = 0x0f ∧ mantissa = 7 then none
  else some (sign * ((1 + mantissa.toNat * (1 / 8)) * 2 ^ ((exponent.toNat : ℤ) - 7)))

theorem forall_byte {P : UInt8 → Prop} (all : ∀ number < 256, P (UInt8.ofNat number)) (byte : UInt8) : P byte := by
  rw [← @UInt8.ofNat_toNat byte]
  exact all _ byte.toNat_lt

/-- Both tables of a byte, read off all bytes at once. -/
private theorem tables_of_byte (byte : UInt8) :
    ((e2m1Q1 byte : ℚ) = 2 * e2m1ToF32 byte ∧ |e2m1Q1 byte| ≤ 12) ∧
      (e4m3fnQ9 byte).map (Int.cast : ℤ → ℚ) = (e4m3fnToF32 byte).map (512 * ·) ∧
      (∀ value ∈ e4m3fnQ9 byte, |value| ≤ 229376) ∧ (byte.toNat % 2 ^ 7 ≠ 0x7f → (e4m3fnToF32 byte).isSome) := by
  revert byte
  apply forall_byte
  decide +kernel

theorem e2m1Q1_eq (nibble : UInt8) : (e2m1Q1 nibble : ℚ) = 2 * e2m1ToF32 nibble :=
  (tables_of_byte nibble).1.1

theorem abs_e2m1Q1_le (nibble : UInt8) : |e2m1Q1 nibble| ≤ 12 :=
  (tables_of_byte nibble).1.2

theorem e4m3fnQ9_eq (byte : UInt8) : (e4m3fnQ9 byte).map (Int.cast : ℤ → ℚ) = (e4m3fnToF32 byte).map (512 * ·) :=
  (tables_of_byte byte).2.1

theorem abs_e4m3fnQ9_le (byte : UInt8) : ∀ value ∈ e4m3fnQ9 byte, |value| ≤ 229376 :=
  (tables_of_byte byte).2.2.1

/-- A number is its integer in 512ths. -/
theorem exists_e4m3fnQ9 {byte : UInt8} (number : (e4m3fnToF32 byte).isSome) :
    ∃ value, e4m3fnQ9 byte = some value ∧ (value : ℚ) = 512 * (e4m3fnToF32 byte).getD 0 ∧ |value| ≤ 229376 := by
  obtain ⟨exact_, is⟩ := Option.isSome_iff_exists.mp number
  have same := e4m3fnQ9_eq byte
  rw [is, Option.map_some, Option.map_eq_some_iff] at same
  obtain ⟨value, found, same⟩ := same
  exact ⟨value, found, by rw [same, is, Option.getD_some], abs_e4m3fnQ9_le byte value found⟩

/-! ## Activations -/

/-- Single precision: the sign bit and the magnitude, which may be infinite or not a number. -/
structure Single where
  negative : Bool
  magnitude : Option (WithTop ℚ≥0)

/-- What a machine and the crate of half precision do; they round a magnitude in any way. -/
structure Float where
  round : ℚ≥0 → WithTop ℚ≥0
  half : Single → Single

section Activations

variable (float : Float)

/-- Nothing times infinity is not a number. -/
def Float.mul : Option (WithTop ℚ≥0) → Option (WithTop ℚ≥0) → Option (WithTop ℚ≥0)
  | some (some left), some (some right) => some (float.round (left * right))
  | some left, some right => if left = 0 ∨ right = 0 then none else some ⊤
  | _, _ => none

/-- How far a code is from a magnitude. -/
def Float.distance (code : UInt8) : Option (WithTop ℚ≥0) → Option (WithTop ℚ≥0)
  | some (some magnitude) =>
    (e4m3fnToF32 code).map fun value => float.round (max value.toNNRat magnitude - min value.toNNRat magnitude)
  | some none => some ⊤
  | none => none

/-- A comparison, which does not hold of what is no number. -/
def compared (relation : WithTop ℚ≥0 → WithTop ℚ≥0 → Bool) : Option (WithTop ℚ≥0) → Option (WithTop ℚ≥0) → Bool
  | some left, some right => relation left right
  | _, _ => false

/-- Whether a code is nearer than the best so far, or as near and the even one. -/
def nearer (code best : ℕ) (distance bestDistance : Option (WithTop ℚ≥0)) : Bool :=
  compared (· < ·) distance bestDistance ||
    compared (· = ·) distance bestDistance && decide (code % 2 = 0) && decide (best % 2 ≠ 0)

/-- The nearest code, by a search through all of them. -/
def e4m3fnFromF32 (value : Single) : UInt8 :=
  if value.magnitude = none then 0x7f
  else
    let sign : UInt8 := if value.negative then 0x80 else 0
    let magnitude := Option.merge min value.magnitude (some 448)
    let best := (List.range 0x7f).foldl (fun (best : ℕ × Option (WithTop ℚ≥0)) code =>
      let distance := float.distance (UInt8.ofNat code) magnitude
      if nearer code best.1 distance best.2 then (code, distance) else best) (0, some ⊤)
    sign ||| UInt8.ofNat best.1

section Factors

-- The literals below are read by one named instance, not by a proof that each of their terms abstracts anew.
local instance two_atLeastTwo : Nat.AtLeastTwo 2 := inferInstance
local instance three_atLeastTwo : Nat.AtLeastTwo 3 := inferInstance
local instance five_atLeastTwo : Nat.AtLeastTwo 5 := inferInstance

/-- The code of a magnitude in a group of a scale. -/
def magnitudeCode (magnitude scale : Option (WithTop ℚ≥0)) : UInt8 :=
  let times (factor : ℚ≥0) := float.mul scale (some factor)
  if compared (· ≤ ·) magnitude (times (1 / 4)) then 0
  else if compared (· < ·) magnitude (times (3 / 4)) then 1
  else if compared (· ≤ ·) magnitude (times (5 / 4)) then 2
  else if compared (· < ·) magnitude (times (7 / 4)) then 3
  else if compared (· ≤ ·) magnitude (times (5 / 2)) then 4
  else if compared (· < ·) magnitude (times (7 / 2)) then 5
  else if compared (· ≤ ·) magnitude (times 5) then 6
  else 7

end Factors

/-- The codes of sixteen activations and the code of their scale; an assertion that fails is `none`. -/
def activationGroupCodes (input : List Single) (inputScaleInv : Single) : Option (List UInt8 × UInt8) :=
  if input.length = 16 ∧ inputScaleInv.magnitude.any (· ≠ ⊤) ∧ inputScaleInv.negative = false ∧
    inputScaleInv.magnitude ≠ some 0 then
    let rounded := input.map float.half
    let absMax := rounded.foldl (fun absMax value => Option.merge max absMax value.magnitude) (some 0)
    let normalizedMax := float.mul absMax (some (float.round (1 / 6)))
    let scaleCode := e4m3fnFromF32 float ⟨false,
      Option.merge min (float.mul normalizedMax inputScaleInv.magnitude) (some 448)⟩
    let scale : Option (WithTop ℚ≥0) := (e4m3fnToF32 scaleCode).map fun value => (value.toNNRat : WithTop ℚ≥0)
    let code (value : Single) : UInt8 :=
      let sign : UInt8 := if value.negative then 8 else 0
      if scale = some 0 then sign else sign ||| magnitudeCode float (float.mul value.magnitude inputScaleInv.magnitude) scale
    some (rounded.map code, scaleCode)
  else none

variable {float}

theorem number_of_code {sign : UInt8} {code : ℕ} (signed : sign = 0 ∨ sign = 0x80) (below : code < 0x7f) :
    (e4m3fnToF32 (sign ||| UInt8.ofNat code)).isSome := by
  have small : (UInt8.ofNat code).toNat = code := UInt8.toNat_ofNat_of_lt (Nat.lt_trans below (by decide))
  have unsigned : sign.toNat % 2 ^ 7 = 0 := by rcases signed with rfl | rfl <;> rfl
  apply (tables_of_byte _).2.2.2
  rw [UInt8.toNat_or, Nat.or_mod_two_pow, unsigned, small, Nat.zero_or]
  omega

/-- What is a number has the code of a number. -/
theorem number_e4m3fnFromF32 {value : Single} (number : value.magnitude ≠ none) :
    (e4m3fnToF32 (e4m3fnFromF32 float value)).isSome := by
  rw [e4m3fnFromF32, if_neg number]
  apply number_of_code
  · split
    · exact .inr rfl
    · exact .inl rfl
  · apply List.foldlRecOn (motive := fun best : ℕ × Option (WithTop ℚ≥0) => best.1 < 0x7f)
    · decide
    · intro best before code mem
      dsimp only
      split
      · exact List.mem_range.mp mem
      · exact before

/-- The least of something and a number is a number, and so is the scale. -/
theorem number_of_activations {input : List Single} {inputScaleInv : Single} {codes : List UInt8} {scale : UInt8}
    (is : activationGroupCodes float input inputScaleInv = some (codes, scale)) :
    codes.length = 16 ∧ (e4m3fnToF32 scale).isSome := by
  rw [activationGroupCodes] at is
  split at is
  · next sound =>
    cases is
    refine ⟨by rw [List.length_map, List.length_map, sound.1], number_e4m3fnFromF32 ?_⟩
    cases float.mul _ inputScaleInv.magnitude with
    | none | some product => exact Option.some_ne_none _
  · cases is

end Activations

/-! ## Contractions -/

def int32 (value : ℤ) : Option ℤ := if -2 ^ 31 ≤ value ∧ value < 2 ^ 31 then some value else none

def int64 (value : ℤ) : Option ℤ := if -2 ^ 63 ≤ value ∧ value < 2 ^ 63 then some value else none

/-- The sum over the pairs of a group, whose bytes are from a base on, with the other factors. -/
def groupDot (packed : List UInt8) (base : ℕ) (other : ℕ → Option ℤ) (pairs : List ℕ) : Option ℤ :=
  pairs.foldlM (fun sum pair => do
    let byte ← packed[base + pair]?
    let low ← int32 (e2m1Q1 byte * (← other (pair * 2)))
    let sum ← int32 (sum + low)
    let high ← int32 (e2m1Q1 (byte >>> 4) * (← other (pair * 2 + 1)))
    int32 (sum + high)) 0

/-- One group of four-bit weights and activations. -/
def addGroupW4a4 (pairs : ℕ → List ℕ) (packed scales : List UInt8) (activations : List (List UInt8 × UInt8)) (sum : ℤ)
    (group : ℕ) : Option ℤ := do
  let weightScaleByte ← scales[group]?
  let (codes, activationScaleByte) ← activations[group]?
  let block ← groupDot packed (group * 8) (fun element => codes[element]?.map e2m1Q1) (pairs group)
  let scaled ← int64 (block * (← e4m3fnQ9 weightScaleByte))
  let product ← int64 (scaled * (← e4m3fnQ9 activationScaleByte))
  int64 (sum + product)

/-- The integer of a row, the groups and the pairs taken in an order. -/
def dotNvfp4W4a4 (order : List ℕ) (pairs : ℕ → List ℕ) (packed scales : List UInt8)
    (activations : List (List UInt8 × UInt8)) : Option ℤ :=
  order.foldlM (addGroupW4a4 pairs packed scales activations) 0

/-- One group of a block of 256 quantized activations. -/
def addGroupA16Q8 (block : ℕ) (pairs : ℕ → List ℕ) (packed scales : List UInt8) (quants : List Int8) (sum : ℤ)
    (groupInBlock : ℕ) : Option ℤ := do
  let group := block * 16 + groupInBlock
  let dot ← groupDot packed (group * 8) (fun element => quants[groupInBlock * 16 + element]?.map Int8.toInt)
    (pairs groupInBlock)
  let weightScaleByte ← scales[group]?
  let product ← int64 (dot * (← e4m3fnQ9 weightScaleByte))
  int64 (sum + product)

def dotNvfp4A16Q8Block (block : ℕ) (order : List ℕ) (pairs : ℕ → List ℕ) (packed scales : List UInt8)
    (quants : List Int8) : Option ℤ :=
  order.foldlM (addGroupA16Q8 block pairs packed scales quants) 0

/-- The codes of a whole row, group by group. -/
def activationCodes (float : Float) (inputScaleInv : Single) (x : List Single) (groups : ℕ) :
    Option (List (List UInt8 × UInt8)) :=
  (List.range groups).mapM fun group => activationGroupCodes float (slice x (group * 16) 16) inputScaleInv

section Checked

variable {step : ℤ → ℕ → Option ℤ} {value : ℕ → ℤ} {order : List ℕ} {count : ℕ}

/-- A loop of checked sums is exact while its turns are small. -/
theorem foldlM_exact {turns : List ℕ} {bound limit : ℤ} (small : ∀ turn ∈ turns, |value turn| ≤ bound)
    (steps : ∀ turn ∈ turns, ∀ sum, |sum| + bound ≤ limit → step sum turn = some (sum + value turn)) {sum : ℤ}
    (fits : |sum| + turns.length * bound ≤ limit) : turns.foldlM step sum = some (sum + (turns.map value).sum) := by
  induction turns generalizing sum with
  | nil => simp
  | cons turn turns ih =>
    rw [List.forall_mem_cons] at small steps
    rw [List.length_cons, Nat.cast_succ, Int.add_mul, Int.one_mul] at fits
    have positive : 0 ≤ bound := (abs_nonneg _).trans small.1
    have rest : 0 ≤ turns.length * bound := Int.mul_nonneg (Int.natCast_nonneg _) positive
    have grown := abs_add_le sum (value turn)
    have first := small.1
    rw [List.foldlM_cons, steps.1 sum (by omega), Option.bind_eq_bind, Option.bind_some,
      ih small.2 steps.2 (by omega), List.map_cons,
      List.sum_cons, Int.add_assoc]

theorem int32_eq {value : ℤ} (small : |value| < 2 ^ 31) : int32 value = some value := by
  have := abs_lt.mp small
  exact if_pos (by omega)

theorem int64_eq {value : ℤ} (small : |value| < 2 ^ 63) : int64 value = some value := by
  have := abs_lt.mp small
  exact if_pos (by omega)

theorem abs_mul_le {left right leftBound rightBound : ℤ} (isLeft : |left| ≤ leftBound) (isRight : |right| ≤ rightBound) :
    |left * right| ≤ leftBound * rightBound := by
  rw [abs_mul]
  exact mul_le_mul isLeft isRight (abs_nonneg _) ((abs_nonneg _).trans isLeft)

theorem sum_of_perm (perm : order.Perm (List.range count)) (value : ℕ → ℤ) :
    (order.map value).sum = ∑ turn ∈ Finset.range count, value turn := by
  rw [(perm.map value).sum_eq]
  exact Multiset.sum_coe ((List.range count).map value)

/-- Checked sums over all turns, in any order. -/
theorem foldlM_of_perm {bound : ℤ} (perm : order.Perm (List.range count)) (small : ∀ turn < count, |value turn| ≤ bound)
    (steps : ∀ turn < count, ∀ sum, |sum| + bound ≤ count * bound → step sum turn = some (sum + value turn)) :
    order.foldlM step 0 = some (∑ turn ∈ Finset.range count, value turn) := by
  have inside : ∀ turn ∈ order, turn < count := fun turn mem => List.mem_range.mp (perm.mem_iff.mp mem)
  have length : order.length = count := by rw [perm.length_eq, List.length_range]
  rw [foldlM_exact (fun turn mem => small turn (inside turn mem)) (fun turn mem =>
    steps turn (inside turn mem)) (by simp [length]),
    Int.zero_add, sum_of_perm perm]

end Checked

/-- The code of a weight. -/
def weightCode (packed : List UInt8) (element : ℕ) : UInt8 :=
  let byte := packed.getD (element / 2) 0
  if element % 2 = 0 then byte else byte >>> 4

section Groups

variable {packed : List UInt8} {other : ℕ → Option ℤ} {factor : ℕ → ℤ} {bound : ℤ} {group : ℕ} {pairs : List ℕ}

/-- The sum of a group is exact, and bounded by its factors. -/
theorem groupDot_eq (inside : group * 8 + 8 ≤ packed.length) (others : ∀ element < 16, other element = some (factor element))
    (small : ∀ element < 16, |factor element| ≤ bound) (narrow : bound ≤ 128) (perm : pairs.Perm (List.range 8)) :
    ∃ dot, groupDot packed (group * 8) other pairs = some dot ∧ |dot| ≤ 192 * bound ∧
      (dot : ℚ) = ∑ element ∈ Finset.range 16,
        2 * e2m1ToF32 (weightCode packed (group * 16 + element)) * factor element := by
  let value (pair : ℕ) : ℤ := e2m1Q1 (packed.getD (group * 8 + pair) 0) * factor (pair * 2) +
    e2m1Q1 (packed.getD (group * 8 + pair) 0 >>> 4) * factor (pair * 2 + 1)
  have low : ∀ pair < 8, |e2m1Q1 (packed.getD (group * 8 + pair) 0) * factor (pair * 2)| ≤ 12 * bound :=
    fun pair below => abs_mul_le (abs_e2m1Q1_le _) (small _ (by lia))
  have high : ∀ pair < 8, |e2m1Q1 (packed.getD (group * 8 + pair) 0 >>> 4) * factor (pair * 2 + 1)| ≤ 12 * bound :=
    fun pair below => abs_mul_le (abs_e2m1Q1_le _) (small _ (by lia))
  have each : ∀ pair < 8, |value pair| ≤ 24 * bound := by
    intro pair below
    have first := low pair below
    have second := high pair below
    exact (abs_add_le _ _).trans (by lia)
  refine ⟨∑ pair ∈ Finset.range 8, value pair, foldlM_of_perm perm each ?_, ?_, ?_⟩
  · intro pair below sum fits
    have first := low pair below
    have second := high pair below
    have byte : packed[group * 8 + pair]? = some (packed.getD (group * 8 + pair) 0) := by
      rw [List.getD_eq_getElem?_getD, List.getElem?_eq_getElem (by lia), Option.getD_some]
    have grown := abs_add_le sum (e2m1Q1 (packed.getD (group * 8 + pair) 0) * factor (pair * 2))
    have grown' := abs_add_le (sum + e2m1Q1 (packed.getD (group * 8 + pair) 0) * factor (pair * 2))
      (e2m1Q1 (packed.getD (group * 8 + pair) 0 >>> 4) * factor (pair * 2 + 1))
    simp only [byte, others _ (show pair * 2 < 16 by lia), others _ (show pair * 2 + 1 < 16 by lia),
      Option.bind_eq_bind, Option.bind_some]
    rw [int32_eq (by lia), Option.bind_some, int32_eq (by lia), Option.bind_some, int32_eq (by lia), Option.bind_some,
      int32_eq (by lia), Int.add_assoc]
  · have total := (Finset.abs_sum_le_sum_abs value (Finset.range 8)).trans
      (Finset.sum_le_sum fun pair mem => each pair (Finset.mem_range.mp mem))
    rw [Finset.sum_const, Finset.card_range, nsmul_eq_mul] at total
    push_cast at total
    lia
  · rw [show 16 = 8 * 2 from rfl, sum_blocks, Int.cast_sum]
    apply Finset.sum_congr rfl
    intro pair _
    rw [Finset.sum_range_succ, Finset.sum_range_one, Int.cast_add, Int.cast_mul, Int.cast_mul, e2m1Q1_eq, e2m1Q1_eq,
      weightCode, weightCode,
      show (group * 16 + (pair * 2 + 0)) / 2 = group * 8 + pair by
        lia, show (group * 16 + (pair * 2 + 1)) / 2 = group * 8 + pair by lia,
      if_pos (by lia), if_neg (by lia)]
    rfl

end Groups

/-- A row: sixteen weights a scale, and every scale a number. -/
structure Row (packed scales : List UInt8) : Prop where
  packed_length : packed.length = 8 * scales.length
  bounded : 16 * scales.length ≤ 2 ^ 20
  numbers : ∀ scale ∈ scales, (e4m3fnToF32 scale).isSome

/-- The activation codes of a row, group by group. -/
structure Activations (activations : List (List UInt8 × UInt8)) (groups : ℕ) : Prop where
  length : activations.length = groups
  each : ∀ group ∈ activations, group.1.length = 16 ∧ (e4m3fnToF32 group.2).isSome

def scaleOf (scales : List UInt8) (element : ℕ) : ℚ := (e4m3fnToF32 (scales.getD (element / 16) 0)).getD 0

def weight (packed scales : List UInt8) (element : ℕ) : ℚ := e2m1ToF32 (weightCode packed element) * scaleOf scales element

def activation (activations : List (List UInt8 × UInt8)) (element : ℕ) : ℚ :=
  e2m1ToF32 ((activations.getD (element / 16) ([], 0)).1.getD (element % 16) 0) * scaleOf (activations.map Prod.snd) element

section Rows

variable {packed scales : List UInt8} {group : ℕ}

/-- A scale that is a number, as an integer. -/
theorem exists_scale (numbers : ∀ scale ∈ scales, (e4m3fnToF32 scale).isSome) (inside : group < scales.length) :
    ∃ byte value, scales[group]? = some byte ∧ e4m3fnQ9 byte = some value ∧ |value| ≤ 229376 ∧
      ∀ element < 16, (value : ℚ) = 512 * scaleOf scales (group * 16 + element) := by
  have there : scales[group]? = some (scales.getD group 0) := by
    rw [List.getD_eq_getElem?_getD, List.getElem?_eq_getElem inside, Option.getD_some]
  obtain ⟨value, found, same, small⟩ := exists_e4m3fnQ9 (numbers _ (List.mem_of_getElem? there))
  refine ⟨_, value, there, found, small, fun element below => ?_⟩
  rw [same, scaleOf, show (group * 16 + element) / 16 = group by lia]

theorem dotNvfp4W4a4_exact {activations : List (List UInt8 × UInt8)} {order : List ℕ} {pairs : ℕ → List ℕ}
    (row : Row packed scales)
    (coded : Activations activations scales.length) (groupOrder : order.Perm (List.range scales.length))
    (pairOrder : ∀ group, (pairs group).Perm (List.range 8)) :
    ∃ total : ℤ, dotNvfp4W4a4 order pairs packed scales activations = some total ∧
      (total : ℚ) = 2 ^ 20 * ∑ element ∈ Finset.range (16 * scales.length),
        weight packed scales element * activation activations element := by
  have bounded := row.bounded
  have scaled : ∀ scale ∈ activations.map Prod.snd, (e4m3fnToF32 scale).isSome := by
    intro scale mem
    obtain ⟨entry, among, rfl⟩ := List.mem_map.mp mem
    exact (coded.each entry among).2
  have each : ∀ group < scales.length, ∃ value : ℤ, |value| ≤ 2304 * 229376 * 229376 ∧
      (∀ sum : ℤ, |sum| + 2304 * 229376 * 229376 ≤ scales.length * (2304 * 229376 * 229376) →
        addGroupW4a4 pairs packed scales activations sum group = some (sum + value)) ∧
      (value : ℚ) = ∑ element ∈ Finset.range 16,
        2 ^ 20 * (weight packed scales (group * 16 + element) * activation activations (group * 16 + element)) := by
    intro group inside
    obtain ⟨byte, weightScale, there, found, small, exact_⟩ := exists_scale row.numbers inside
    obtain ⟨_, activationScale, there', found', small', exact_'⟩ :=
      exists_scale scaled (show group < (activations.map Prod.snd).length by rwa [List.length_map, coded.length])
    rw [List.getElem?_map, Option.map_eq_some_iff] at there'
    obtain ⟨⟨codes, scaleByte⟩, there', rfl⟩ := there'
    have sixteen := (coded.each _ (List.mem_of_getElem? there')).1
    have whole : activations.getD group ([], 0) = (codes, scaleByte) := by
      rw [List.getD_eq_getElem?_getD, there', Option.getD_some]
    obtain ⟨block, dotted, narrow, summed⟩ := @groupDot_eq packed (fun element => codes[element]?.map e2m1Q1)
      (fun element => e2m1Q1 (codes.getD element 0)) 12 group (pairs group) (by have := row.packed_length; lia)
      (fun element below => by
        rw [List.getD_eq_getElem?_getD, List.getElem?_eq_getElem (by rwa [sixteen])]
        rfl)
      (fun element _ => abs_e2m1Q1_le _) (by decide) (pairOrder group)
    have first := abs_mul_le narrow small
    have second := abs_mul_le first small'
    refine ⟨block * weightScale * activationScale, second, fun sum fits => ?_, ?_⟩
    · have grown := abs_add_le sum (block * weightScale * activationScale)
      simp only [addGroupW4a4, there, there', dotted, found, found', Option.bind_eq_bind, Option.bind_some]
      rw [int64_eq (by lia), Option.bind_some, int64_eq (by lia), Option.bind_some, int64_eq (by lia)]
    · rw [Int.cast_mul, Int.cast_mul, summed, Finset.sum_mul, Finset.sum_mul]
      apply Finset.sum_congr rfl
      intro element mem
      have below := Finset.mem_range.mp mem
      rw [exact_ element below, exact_' element below, e2m1Q1_eq, weight, activation,
        show (group * 16 + element) / 16 = group by lia,
        show (group * 16 + element) % 16 = element by lia, whole]
      ring
  choose! value small steps exact_ using each
  refine ⟨_, foldlM_of_perm groupOrder small steps, ?_⟩
  rw [Int.cast_sum, Nat.mul_comm, sum_blocks, Finset.mul_sum]
  apply Finset.sum_congr rfl
  intro group mem
  rw [exact_ group (Finset.mem_range.mp mem), Finset.mul_sum]

theorem dotNvfp4A16Q8Block_exact {block : ℕ} {quants : List Int8} {order : List ℕ} {pairs : ℕ → List ℕ}
    (row : Row packed scales)
    (inside : block * 16 + 16 ≤ scales.length) (quantized : quants.length = 256) (groupOrder : order.Perm (List.range 16))
    (pairOrder : ∀ group, (pairs group).Perm (List.range 8)) :
    ∃ total : ℤ, dotNvfp4A16Q8Block block order pairs packed scales quants = some total ∧
      (total : ℚ) = 2 ^ 10 * ∑ element ∈ Finset.range 256,
        weight packed scales (block * 256 + element) * (quants.getD element 0).toInt := by
  have each : ∀ group < 16, ∃ value : ℤ, |value| ≤ 24576 * 229376 ∧
      (∀ sum : ℤ, |sum| + 24576 * 229376 ≤ ((16 : ℕ) : ℤ) * (24576 * 229376) →
        addGroupA16Q8 block pairs packed scales quants sum group = some (sum + value)) ∧
      (value : ℚ) = ∑ element ∈ Finset.range 16,
        2 ^ 10 * (weight packed scales (block * 256 +
          (group * 16 + element)) * (quants.getD (group * 16 + element) 0).toInt) := by
    intro group below
    obtain ⟨byte, scale, there, found, small, exact_⟩ :=
      exists_scale row.numbers (show block * 16 + group < scales.length by lia)
    obtain ⟨dot, dotted, narrow, summed⟩ := @groupDot_eq packed (fun element => quants[group * 16 + element]?.map Int8.toInt)
      (fun element => (quants.getD (group * 16 + element) 0).toInt) 128 (block * 16 + group) (pairs group)
      (by have := row.packed_length; lia)
      (fun element below => by
        rw [List.getD_eq_getElem?_getD, List.getElem?_eq_getElem (by lia)]
        rfl)
      (fun element _ => by
        have most := (quants.getD (group * 16 + element) 0).toInt_lt
        have least := (quants.getD (group * 16 + element) 0).le_toInt
        exact abs_le.mpr ⟨least, Int.le_of_lt most⟩) (by decide) (pairOrder group)
    have first := abs_mul_le narrow small
    refine ⟨dot * scale, first, fun sum fits => ?_, ?_⟩
    · have grown := abs_add_le sum (dot * scale)
      simp only [addGroupA16Q8, there, dotted, found, Option.bind_eq_bind, Option.bind_some]
      rw [int64_eq (by lia), Option.bind_some, int64_eq (by lia)]
    · rw [Int.cast_mul, summed, Finset.sum_mul]
      apply Finset.sum_congr rfl
      intro element mem
      rw [exact_ element (Finset.mem_range.mp mem), weight,
        show (block * 16 + group) * 16 + element = block * 256 + (group * 16 + element) by
        lia]
      ring
  choose! value small steps exact_ using each
  refine ⟨_, foldlM_of_perm groupOrder small steps, ?_⟩
  rw [Int.cast_sum, show 256 = 16 * 16 from rfl, sum_blocks, Finset.mul_sum]
  apply Finset.sum_congr rfl
  intro group mem
  rw [exact_ group (Finset.mem_range.mp mem), Finset.mul_sum]

end Rows

section Assertions

variable {float : Float} {inputScaleInv : Single}

theorem activationGroupCodes_isSome {input : List Single} (sixteen : input.length = 16)
    (finite : inputScaleInv.magnitude.any (· ≠ ⊤))
    (positive : inputScaleInv.negative = false ∧ inputScaleInv.magnitude ≠ some 0) :
    ∃ group, activationGroupCodes float input inputScaleInv = some group ∧ group.1.length = 16 ∧
      (e4m3fnToF32 group.2).isSome := by
  obtain ⟨group, is⟩ := Option.isSome_iff_exists.mp
    (show (activationGroupCodes float input
      inputScaleInv).isSome by rw [activationGroupCodes, if_pos ⟨sixteen, finite, positive⟩]; rfl)
  exact ⟨group, is, number_of_activations is⟩

/-- The activations of a row have codes, and no scale among them fails the assertion. -/
theorem exists_activationCodes {x : List Single} {groups : ℕ} (length : 16 * groups ≤ x.length)
    (finite : inputScaleInv.magnitude.any (· ≠ ⊤))
    (positive : inputScaleInv.negative = false ∧ inputScaleInv.magnitude ≠ some 0) :
    ∃ activations, activationCodes float inputScaleInv x groups = some activations ∧ Activations activations groups := by
  induction groups with
  | zero => exact ⟨[], rfl, rfl, fun _ mem => nomatch mem⟩
  | succ groups ih =>
    obtain ⟨activations, is, counted, each⟩ := ih (by lia)
    obtain ⟨group, found, sized⟩ := @activationGroupCodes_isSome float inputScaleInv (slice x (groups * 16) 16)
      (length_slice (by lia)) finite positive
    refine ⟨activations ++ [group], ?_, by rw [List.length_append, counted, List.length_singleton], fun entry mem => ?_⟩
    · rw [activationCodes] at is ⊢
      rw [List.range_succ, List.mapM_append, is, List.mapM_cons, found, List.mapM_nil]
      rfl
    · rcases List.mem_append.mp mem with early | late
      · exact each entry early
      · rwa [List.mem_singleton.mp late]

end Assertions

/-- Every contraction is exact in any order, and no assertion on a scale fails. -/
theorem contractions_exact {packed scales : List UInt8} (row : Row packed scales) :
    (∀ activations order pairs, Activations activations scales.length → order.Perm (List.range scales.length) →
      (∀ group, (pairs group).Perm (List.range 8)) →
      ∃ total : ℤ, dotNvfp4W4a4 order pairs packed scales activations = some total ∧ (total : ℚ) =
        2 ^ 20 * ∑ element ∈ Finset.range (16 * scales.length),
          weight packed scales element * activation activations element) ∧
    (∀ block quants order pairs, block * 16 + 16 ≤ scales.length → quants.length = 256 → order.Perm (List.range 16) →
      (∀ group, (pairs group).Perm (List.range 8)) →
      ∃ total : ℤ, dotNvfp4A16Q8Block block order pairs packed scales quants = some total ∧ (total : ℚ) =
        2 ^ 10 * ∑ element ∈ Finset.range 256,
          weight packed scales (block * 256 + element) * (quants.getD element 0).toInt) ∧
    ∀ (float : Float) (inputScaleInv : Single) (x : List Single), x.length = 16 * scales.length →
      inputScaleInv.magnitude.any (· ≠ ⊤) → inputScaleInv.negative = false ∧ inputScaleInv.magnitude ≠ some 0 →
      ∃ activations, activationCodes float inputScaleInv x scales.length = some activations ∧
        Activations activations scales.length := by
  refine ⟨?_, ?_, ?_⟩
  · intro activations order pairs coded groupOrder pairOrder
    exact dotNvfp4W4a4_exact row coded groupOrder pairOrder
  · intro block quants order pairs inside quantized groupOrder pairOrder
    exact dotNvfp4A16Q8Block_exact row inside quantized groupOrder pairOrder
  · intro float inputScaleInv x length finite positive
    exact exists_activationCodes (Nat.le_of_eq length.symm) finite positive

def mixedRow : List UInt8 := (List.range 128).map UInt8.ofNat

def mixedScales : List UInt8 := (List.range 16).map fun group => UInt8.ofNat (0x30 + group)

/-- A row of sixteen groups, contracted from the last to the first. -/
theorem contractions_exact_mixed :
    (∃ total : ℤ, dotNvfp4W4a4 (List.range 16).reverse (fun _ => (List.range 8).reverse) mixedRow mixedScales
        (List.replicate 16 (List.replicate 16 2, 0x38)) = some total ∧ (total : ℚ) = 2 ^ 20 * ∑ element ∈ Finset.range 256,
          weight mixedRow mixedScales element * activation (List.replicate 16 (List.replicate 16 2, 0x38)) element) ∧
    ∃ total : ℤ, dotNvfp4A16Q8Block 0 (List.range 16).reverse (fun _ => (List.range 8).reverse) mixedRow mixedScales
        ((List.range 256).map Int8.ofNat) = some total ∧ (total : ℚ) = 2 ^ 10 * ∑ element ∈ Finset.range 256,
          weight mixedRow mixedScales (0 * 256 + element) * (((List.range 256).map Int8.ofNat).getD element 0).toInt := by
  obtain ⟨w4a4, q8, -⟩ := @contractions_exact mixedRow mixedScales ⟨by decide +kernel, by decide +kernel, by decide +kernel⟩
  exact ⟨w4a4 _ _ _ ⟨rfl, by decide +kernel⟩ (List.reverse_perm _) fun _ => List.reverse_perm _,
    q8 0 _ _ _ (by decide) (by rw [List.length_map, List.length_range]) (List.reverse_perm _) fun _ => List.reverse_perm _⟩

end Muser.Quant.Nvfp4
