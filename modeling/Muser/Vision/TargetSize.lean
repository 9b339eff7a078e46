import Mathlib.Analysis.Real.Sqrt
import Mathlib.Algebra.Order.Floor.Semiring
import Muser.Lib.Check
import Muser.Lib.Bytes

/-! # The size an image is given

An image is scaled to whole patches, no more of them than there are tokens for it. Of the sizes that
round each side down or up the one with the nearest shape is taken; where none of them fits, each side is
rounded to at least one patch, and then the patches may be too many.
-/

namespace Muser.Vision

/-- Patches that are merged into one token, along a side. -/
def merge : ℕ := 2

def channels : ℕ := 3

def maxImageTokens : ℕ := 4096

section Size

variable {R : Type} [Field R] [LinearOrder R] [FloorSemiring R]

/-- A height and a width in patches, and how far their shape is from the image's. -/
abbrev Fit (R : Type) := ℕ × ℕ × R

/-- The nearer shape, and of two as near the larger one. -/
def consider (maxTokens : ℕ) (targetAr : R) (best : Option (Fit R)) (candidate : ℕ × ℕ) : Option (Fit R) :=
  let (height, width) := candidate
  if height = 0 ∨ width = 0 ∨ maxTokens < height * width then best
  else
    let distance : R := |(height : R) / width - targetAr|
    if best.all fun (bh, bw, bd) => distance < bd ∨ distance = bd ∧ bh * bw < height * width then
      some (height, width, distance)
    else best

/-- The sides of an image in patches, as far as they fit. -/
def patches (sqrt : R → R) (imageW imageH patchHw maxTokens : ℕ) : R × R :=
  let nph : R := (imageH : R) / patchHw
  let npw : R := (imageW : R) / patchHw
  let ratio := if 0 < nph then npw / nph else 1
  if (maxTokens : R) < nph * npw then
    let nph := sqrt (maxTokens / ratio)
    (nph, nph * ratio)
  else (nph, npw)

def candidates (nph npw : R) : List (ℕ × ℕ) :=
  [⌊nph⌋₊, ⌈nph⌉₊].flatMap fun height => [⌊npw⌋₊, ⌈npw⌉₊].map fun width => (height, width)

section Halfway

-- The literals below are read by one named instance, not by a proof that each of their terms abstracts anew.
local instance two_atLeastTwo : Nat.AtLeastTwo 2 := inferInstance

/-- A number rounded to the nearest whole one, and up from halfway. -/
def round (value : R) : ℕ := ⌊value + 1 / 2⌋₊

end Halfway

/-- A height and a width in whole patches. -/
def grid (maxTokens : ℕ) (targetAr nph npw : R) : ℕ × ℕ :=
  match (candidates nph npw).foldl (consider maxTokens targetAr) none with
  | some (height, width, _) => (height, width)
  | none => (max (round nph) 1, max (round npw) 1)

/-- A width and a height in pixels. -/
def targetSize (sqrt : R → R) (imageW imageH patchHw maxTokens : ℕ) : ℕ × ℕ :=
  let (nph, npw) := patches sqrt imageW imageH patchHw maxTokens
  let (height, width) := grid maxTokens ((imageH : R) / (max imageW 1 : ℕ)) nph npw
  (width * patchHw, height * patchHw)

end Size

section Image

variable {R : Type}

inductive VisionError where
  | image (message : String)
  | invalid (message : String)
deriving DecidableEq

structure VisionConfig (R : Type) where
  patchSize : ℕ
  imageMean : Fin channels → R
  imageStd : Fin channels → R

/-- A decoded image, row by row. -/
structure RgbImage where
  width : ℕ
  height : ℕ
  pixels : List (Fin channels → UInt8)

structure PreprocessedImage (R : Type) where
  width : ℕ
  height : ℕ
  pixels : List R

/-- The tokens that an image takes. -/
def projectedTokenCount (config : VisionConfig R) (image : PreprocessedImage R) : Except VisionError ℕ :=
  let patch := config.patchSize
  if ¬patch * merge ∣ image.width ∨ ¬patch * merge ∣ image.height ∨
    image.pixels.length ≠ channels * image.width * image.height then
    .error (.invalid "preprocessed image geometry is invalid")
  else .ok (image.width / patch * (image.height / patch) / (merge * merge))

variable [Field R]

/-- The colours of the pixels, one plane after the other. -/
def planes (config : VisionConfig R) (plane : ℕ) (resized : List (Fin channels → UInt8)) : List R :=
  resized.zipIdx.foldl (fun pixels (pixel, index) =>
    (List.finRange channels).foldl (fun (pixels : List R) (channel : Fin channels) =>
    pixels.set (channel * plane + index)
      (((pixel channel).toNat / 255 - config.imageMean channel) / config.imageStd channel)) pixels)
    (List.replicate (channels * plane) 0)

variable [LinearOrder R] [FloorSemiring R]

/-- An image in the size it is encoded in; how images are decoded and resized is given. -/
def preprocessBytes (sqrt : R → R) (decode : Bytes → Except VisionError RgbImage)
    (resize : RgbImage → UInt32 → UInt32 → List (Fin channels → UInt8)) (config : VisionConfig R) (encoded : Bytes) :
    Except VisionError (PreprocessedImage R) := do
  let image ← decode encoded
  let (targetW, targetH) := targetSize sqrt image.width image.height (config.patchSize * merge) maxImageTokens
  let resized := resize image targetW.toUInt32 targetH.toUInt32
  .ok ⟨targetW, targetH, planes config (targetW * targetH) resized⟩

end Image

section Search

variable {R : Type} [Field R] [LinearOrder R] {maxTokens : ℕ} {targetAr : R}

/-- Sides that are there and fit the tokens. -/
def Fits (maxTokens : ℕ) (sides : ℕ × ℕ) : Prop := 0 < sides.1 ∧ 0 < sides.2 ∧ sides.1 * sides.2 ≤ maxTokens

theorem fits_iff {height width : ℕ} : Fits maxTokens (height, width) ↔
    ¬(height = 0 ∨ width = 0 ∨ maxTokens < height * width) := by
  rw [Fits, not_or, not_or, Nat.pos_iff_ne_zero, Nat.pos_iff_ne_zero, Nat.not_lt]

variable {best : Option (Fit R)} {sides : ℕ × ℕ}

theorem consider_of_not_fits (wide : ¬Fits maxTokens sides) :
    consider maxTokens targetAr best sides = best := by
  obtain ⟨height, width⟩ := sides
  rw [fits_iff, not_not] at wide
  rw [consider]
  exact if_pos wide

variable (targetAr) in
theorem consider_of_fits (fits : Fits maxTokens sides) :
    (∃ distance, consider maxTokens targetAr best sides = some (sides.1, sides.2, distance)) ∨
      (best.isSome ∧ consider maxTokens targetAr best sides = best) := by
  obtain ⟨height, width⟩ := sides
  rw [fits_iff] at fits
  rw [consider]
  dsimp only
  rw [if_neg fits]
  split
  · exact .inl ⟨_, rfl⟩
  · next farther =>
    refine .inr ⟨?_, rfl⟩
    cases best with
    | none => exact absurd rfl farther
    | some best => rfl

/-- The search finds sides that fit, if there are some among those it looks at. -/
theorem foldl_consider (sides : List (ℕ × ℕ)) (best : Option (Fit R))
    (sound : ∀ fit ∈ best, Fits maxTokens (fit.1, fit.2.1)) :
    (∀ fit ∈ sides.foldl (consider maxTokens targetAr) best, Fits maxTokens (fit.1, fit.2.1)) ∧
      ((sides.foldl (consider maxTokens targetAr) best).isSome ↔ best.isSome ∨ ∃ pair ∈ sides, Fits maxTokens pair) := by
  induction sides generalizing best with
  | nil => exact ⟨sound, by simp⟩
  | cons pair sides ih =>
    rw [List.foldl_cons]
    by_cases fits : Fits maxTokens pair
    · have next : (∀ fit ∈ consider maxTokens targetAr best pair, Fits maxTokens (fit.1, fit.2.1)) ∧
          (consider maxTokens targetAr best pair).isSome := by
        rcases consider_of_fits targetAr fits with ⟨distance, is⟩ | ⟨some_, is⟩
        · rw [is]
          refine ⟨fun fit mem => ?_, rfl⟩
          cases mem
          exact fits
        · rw [is]
          exact ⟨sound, some_⟩
      obtain ⟨found, some_⟩ := ih _ next.1
      refine ⟨found, ?_⟩
      rw [some_]
      exact ⟨fun _ => .inr ⟨pair, List.mem_cons_self, fits⟩, fun _ => .inl next.2⟩
    · rw [consider_of_not_fits fits]
      obtain ⟨found, some_⟩ := ih best sound
      refine ⟨found, some_.trans ?_⟩
      rw [List.exists_mem_cons_iff, or_iff_right fits]

end Search

section Grid

variable {R : Type} [Field R] [LinearOrder R] [FloorSemiring R] {maxTokens : ℕ} {targetAr nph npw : R}

theorem mem_candidates {pair : ℕ × ℕ} :
    pair ∈ candidates nph npw ↔ (pair.1 = ⌊nph⌋₊ ∨ pair.1 = ⌈nph⌉₊) ∧ (pair.2 = ⌊npw⌋₊ ∨ pair.2 = ⌈npw⌉₊) := by
  obtain ⟨height, width⟩ := pair
  simp only [candidates, List.mem_flatMap, List.mem_map, List.mem_cons, List.not_mem_nil, or_false, Prod.mk.injEq]
  constructor
  · rintro ⟨_, first, _, second, rfl, rfl⟩
    exact ⟨first, second⟩
  · rintro ⟨first, second⟩
    exact ⟨height, first, width, second, rfl, rfl⟩

variable [IsStrictOrderedRing R]

theorem ceil_eq_one {side : R} (some_ : 0 < side) (short : ⌊side⌋₊ = 0) : ⌈side⌉₊ = 1 := by
  apply le_antisymm
  · exact Nat.ceil_le.mpr (by rw [Nat.cast_one]; exact (Nat.floor_eq_zero.mp short).le)
  · exact Nat.ceil_pos.mpr some_

/-- Of the sides that are tried some fit the tokens, unless one side alone is more than the tokens. -/
theorem exists_fits_iff (tall : 0 < nph) (wide : 0 < npw) (within : nph * npw ≤ maxTokens) (some_ : 1 ≤ maxTokens) :
    (∃ pair ∈ candidates nph npw, Fits maxTokens pair) ↔ ⌊nph⌋₊ ≤ maxTokens ∧ ⌊npw⌋₊ ≤ maxTokens := by
  constructor
  · rintro ⟨⟨height, width⟩, mem, tall, wide, fits⟩
    obtain ⟨first, second⟩ := mem_candidates.mp mem
    have first : ⌊nph⌋₊ ≤ height := by
      rcases first with is | is
      · exact is.ge
      · exact (Nat.floor_le_ceil nph).trans is.ge
    have second : ⌊npw⌋₊ ≤ width := by
      rcases second with is | is
      · exact is.ge
      · exact (Nat.floor_le_ceil npw).trans is.ge
    exact ⟨first.trans ((Nat.le_mul_of_pos_right height wide).trans fits),
      second.trans ((Nat.le_mul_of_pos_left width tall).trans fits)⟩
  · rintro ⟨first, second⟩
    rcases Nat.eq_zero_or_pos ⌊nph⌋₊ with low | high
    · have one := ceil_eq_one tall low
      rcases Nat.eq_zero_or_pos ⌊npw⌋₊ with thin | thick
      · refine ⟨(1, 1), mem_candidates.mpr ⟨.inr one.symm, .inr (ceil_eq_one wide thin).symm⟩, Nat.one_pos, Nat.one_pos, ?_⟩
        exact some_
      · refine ⟨(1, ⌊npw⌋₊), mem_candidates.mpr ⟨.inr one.symm, .inl rfl⟩, Nat.one_pos, thick, ?_⟩
        rw [Nat.one_mul]
        exact second
    · rcases Nat.eq_zero_or_pos ⌊npw⌋₊ with thin | thick
      · refine ⟨(⌊nph⌋₊, 1), mem_candidates.mpr ⟨.inl rfl, .inr (ceil_eq_one wide thin).symm⟩, high, Nat.one_pos, ?_⟩
        rw [Nat.mul_one]
        exact first
      · refine ⟨(⌊nph⌋₊, ⌊npw⌋₊), mem_candidates.mpr ⟨.inl rfl, .inl rfl⟩, high, thick, ?_⟩
        have area : (⌊nph⌋₊ : R) * ⌊npw⌋₊ ≤ maxTokens :=
          (mul_le_mul (Nat.floor_le tall.le) (Nat.floor_le wide.le) (Nat.cast_nonneg _) tall.le).trans within
        exact_mod_cast area

theorem floor_le_round (side : R) : ⌊side⌋₊ ≤ round side := by
  apply Nat.floor_mono
  exact le_add_of_nonneg_right (by positivity)

variable (targetAr) in
/-- A grid has patches, and no more than the tokens unless one side alone is more than they are. -/
theorem grid_spec (tall : 0 < nph) (wide : 0 < npw) (within : nph * npw ≤ maxTokens) (some_ : 1 ≤ maxTokens) :
    0 < (grid maxTokens targetAr nph npw).1 ∧ 0 < (grid maxTokens targetAr nph npw).2 ∧
      ((grid maxTokens targetAr nph npw).1 * (grid maxTokens targetAr nph npw).2 ≤ maxTokens ↔
        ⌊nph⌋₊ ≤ maxTokens ∧ ⌊npw⌋₊ ≤ maxTokens) := by
  obtain ⟨sound, found⟩ := foldl_consider (candidates nph npw) (none : Option (Fit R)) nofun
  rw [Option.isSome_none, Bool.false_eq_true, false_or, exists_fits_iff tall wide within some_] at found
  rw [grid]
  cases is : (candidates nph npw).foldl (consider maxTokens targetAr) none with
  | some fit =>
    obtain ⟨height, width, distance⟩ := fit
    obtain ⟨tall, wide, fits⟩ := sound _ is
    rw [is] at found
    exact ⟨tall, wide, fun _ => found.mp rfl, fun _ => fits⟩
  | none =>
    rw [is] at found
    have first : ⌊nph⌋₊ ≤ max (round nph) 1 := (floor_le_round nph).trans (le_max_left _ _)
    have second : ⌊npw⌋₊ ≤ max (round npw) 1 := (floor_le_round npw).trans (le_max_left _ _)
    have high : 0 < max (round nph) 1 := lt_max_of_lt_right Nat.one_pos
    have thick : 0 < max (round npw) 1 := lt_max_of_lt_right Nat.one_pos
    refine ⟨high, thick, fun fits => ?_, fun both => ?_⟩
    · exact ⟨first.trans ((Nat.le_mul_of_pos_right _ thick).trans fits),
        second.trans ((Nat.le_mul_of_pos_left _ high).trans fits)⟩
    · exact nomatch found.mpr both

end Grid

/-! ## Where the patches are few enough -/

/-- The image is not so much longer than it is wide, or wider than it is long, that one side alone is scaled to more patches
than there are tokens. -/
def Slim (imageW imageH patchHw maxTokens : ℕ) : Prop :=
  if imageW * imageH ≤ maxTokens * patchHw ^ 2 then imageW < (maxTokens + 1) * patchHw ∧ imageH < (maxTokens + 1) * patchHw
  else maxTokens * imageW < (maxTokens + 1) ^ 2 * imageH ∧ maxTokens * imageH < (maxTokens + 1) ^ 2 * imageW

instance (imageW imageH patchHw maxTokens : ℕ) : Decidable (Slim imageW imageH patchHw maxTokens) := by
  unfold Slim
  infer_instance

section Real

variable {imageW imageH patchHw maxTokens : ℕ}

/-- A side is below a bound where its square is. -/
theorem floor_le_iff {side : ℝ} (nonneg : 0 ≤ side) : ⌊side⌋₊ ≤ maxTokens ↔ side ^ 2 < ((maxTokens : ℝ) + 1) ^ 2 := by
  rw [← Nat.lt_succ_iff, Nat.floor_lt nonneg, Nat.cast_succ]
  exact (pow_lt_pow_iff_left₀ nonneg (by positivity) two_ne_zero).symm

theorem patches_spec (width : 1 ≤ imageW) (height : 1 ≤ imageH) (patch : 1 ≤ patchHw) (some_ : 1 ≤ maxTokens) :
    0 < (patches Real.sqrt imageW imageH patchHw maxTokens).1 ∧ 0 < (patches Real.sqrt imageW imageH patchHw maxTokens).2 ∧
      (patches Real.sqrt imageW imageH patchHw maxTokens).1 * (patches Real.sqrt imageW imageH patchHw maxTokens).2 ≤
        maxTokens ∧
      (⌊(patches Real.sqrt imageW imageH patchHw maxTokens).1⌋₊ ≤ maxTokens ∧
          ⌊(patches Real.sqrt imageW imageH patchHw maxTokens).2⌋₊ ≤ maxTokens ↔ Slim imageW imageH patchHw maxTokens) := by
  have w : (0 : ℝ) < imageW := Nat.cast_pos.mpr width
  have h : (0 : ℝ) < imageH := Nat.cast_pos.mpr height
  have p : (0 : ℝ) < patchHw := Nat.cast_pos.mpr patch
  have m : (0 : ℝ) < maxTokens := Nat.cast_pos.mpr some_
  have nph : (0 : ℝ) < imageH / patchHw := div_pos h p
  have npw : (0 : ℝ) < imageW / patchHw := div_pos w p
  have area : (imageH : ℝ) / patchHw * (imageW / patchHw) ≤ maxTokens ↔ imageW * imageH ≤ maxTokens * patchHw ^ 2 := by
    rw [div_mul_div_comm, div_le_iff₀ (mul_pos p p), ← sq, mul_comm (imageH : ℝ)]
    exact_mod_cast Iff.rfl
  have short : ∀ side : ℕ, ⌊(side : ℝ) / patchHw⌋₊ ≤ maxTokens ↔ side < (maxTokens + 1) * patchHw := by
    intro side
    rw [← Nat.lt_succ_iff, Nat.floor_lt (by positivity), div_lt_iff₀ p]
    exact_mod_cast Iff.rfl
  rw [patches]
  dsimp only
  rw [if_pos nph, Slim]
  by_cases fits : imageW * imageH ≤ maxTokens * patchHw ^ 2
  · rw [if_neg (not_lt.mpr (area.mpr fits)), if_pos fits]
    exact ⟨nph, npw, area.mpr fits, by rw [short, short, and_comm]⟩
  · rw [if_pos (lt_of_not_ge (area.not.mpr fits)), if_neg fits]
    dsimp only
    have shape : (imageW : ℝ) / patchHw / (imageH / patchHw) = imageW / imageH := div_div_div_cancel_right₀ p.ne' _ _
    rw [shape]
    have square : Real.sqrt (maxTokens / (imageW / imageH)) ^ 2 = maxTokens * imageH / imageW := by
      rw [Real.sq_sqrt (by positivity)]
      field_simp
    have side : 0 < Real.sqrt (maxTokens / ((imageW : ℝ) / imageH)) := Real.sqrt_pos.mpr (by positivity)
    refine ⟨side, mul_pos side (div_pos w h), ?_, ?_⟩
    · rw [← mul_assoc, ← sq, square]
      apply le_of_eq
      field_simp
    · rw [floor_le_iff side.le, floor_le_iff (mul_pos side (div_pos w h)).le, mul_pow, square, and_comm]
      have tall : (maxTokens : ℝ) * imageH / imageW < (maxTokens + 1) ^ 2 ↔
          maxTokens * imageH < (maxTokens + 1) ^ 2 * imageW := by
        rw [div_lt_iff₀ w]
        exact_mod_cast Iff.rfl
      have wide : (maxTokens : ℝ) * imageH / imageW * (imageW / imageH) ^ 2 < (maxTokens + 1) ^ 2 ↔
          maxTokens * imageW < (maxTokens + 1) ^ 2 * imageH := by
        rw [show (maxTokens : ℝ) * imageH / imageW * (imageW / imageH) ^ 2 =
          maxTokens * imageW / imageH by field_simp, div_lt_iff₀ h]
        exact_mod_cast Iff.rfl
      rw [tall, wide]

/-- Whole patches along both sides, and no more of them than there are tokens. -/
structure Budgeted (patchHw maxTokens : ℕ) (size : ℕ × ℕ) : Prop where
  width : 0 < size.1
  height : 0 < size.2
  columns : patchHw ∣ size.1
  rows : patchHw ∣ size.2
  few : size.1 / patchHw * (size.2 / patchHw) ≤ maxTokens

/-- The size is made of patches, whatever the image is. -/
theorem targetSize_grid (width : 1 ≤ imageW) (height : 1 ≤ imageH) (patch : 1 ≤ patchHw) (some_ : 1 ≤ maxTokens) :
    ∃ columns rows, targetSize Real.sqrt imageW imageH patchHw maxTokens = (columns * patchHw, rows * patchHw) ∧
      0 < columns ∧ 0 < rows ∧ (columns * rows ≤ maxTokens ↔ Slim imageW imageH patchHw maxTokens) := by
  obtain ⟨tall, wide, within, slim⟩ := patches_spec width height patch some_
  let found := grid maxTokens ((imageH : ℝ) / (max imageW 1 : ℕ)) (patches Real.sqrt imageW imageH patchHw maxTokens).1
    (patches Real.sqrt imageW imageH patchHw maxTokens).2
  obtain ⟨rows, columns, few⟩ := grid_spec ((imageH : ℝ) / (max imageW 1 : ℕ)) tall wide within some_
  exact ⟨found.2, found.1, rfl, columns, rows, by rw [mul_comm, few, slim]⟩

theorem budgeted_iff (width : 1 ≤ imageW) (height : 1 ≤ imageH) (patch : 1 ≤ patchHw) (some_ : 1 ≤ maxTokens) :
    Budgeted patchHw maxTokens (targetSize Real.sqrt imageW imageH patchHw maxTokens) ↔
      Slim imageW imageH patchHw maxTokens := by
  obtain ⟨columns, rows, size, wide, tall, few⟩ := targetSize_grid width height patch some_
  rw [size, ← few]
  constructor
  · rintro ⟨-, -, -, -, few⟩
    rwa [Nat.mul_div_cancel _ patch, Nat.mul_div_cancel _ patch] at few
  · intro few
    refine ⟨Nat.mul_pos wide patch, Nat.mul_pos tall patch, Nat.dvd_mul_left _ _, Nat.dvd_mul_left _ _, ?_⟩
    rwa [Nat.mul_div_cancel _ patch, Nat.mul_div_cancel _ patch]

end Real

section Tokens

variable {R : Type} {config : VisionConfig R}

/-- The tokens of a whole number of patches. -/
theorem projectedTokenCount_grid {image : PreprocessedImage R} {columns rows : ℕ} (patch : 1 ≤ config.patchSize)
    (width : image.width = columns * (config.patchSize * merge)) (height : image.height = rows * (config.patchSize * merge))
    (pixels : image.pixels.length = channels * (image.width * image.height)) :
    projectedTokenCount config image = .ok (columns * rows) := by
  have whole : ∀ count : ℕ, count * (config.patchSize * merge) / config.patchSize = count * merge := by
    intro count
    rw [← Nat.mul_assoc, Nat.mul_right_comm, Nat.mul_div_cancel _ patch]
  rw [projectedTokenCount, if_neg]
  · rw [width, height, whole, whole, Nat.mul_mul_mul_comm, Nat.mul_div_cancel _ (by decide)]
  · rw [not_or, not_or, not_not, not_not, not_not, Nat.mul_assoc]
    exact ⟨width ▸ Nat.dvd_mul_left _ _, height ▸ Nat.dvd_mul_left _ _, pixels⟩

theorem length_planes [Field R] (config : VisionConfig R) (plane : ℕ) (resized : List (Fin channels → UInt8)) :
    (planes config plane resized).length = channels * plane := by
  have colours : ∀ (pixel : Fin channels → UInt8) (index : ℕ) (every : List (Fin channels)) (pixels : List R),
      (every.foldl (fun (pixels : List R) (channel : Fin channels) => pixels.set (channel * plane + index)
        (((pixel channel).toNat / 255 - config.imageMean channel) / config.imageStd channel)) pixels).length =
          pixels.length := by
    intro pixel index every
    induction every with
    | nil => exact fun _ => rfl
    | cons channel every ih =>
      intro pixels
      rw [List.foldl_cons, ih, List.length_set]
  have rows : ∀ (every : List ((Fin channels → UInt8) × ℕ)) (pixels : List R),
      (every.foldl (fun pixels (pixel, index) =>
        (List.finRange channels).foldl (fun (pixels : List R) (channel : Fin channels) =>
        pixels.set (channel * plane + index)
          (((pixel channel).toNat / 255 - config.imageMean channel) / config.imageStd channel))
          pixels) pixels).length = pixels.length := by
    intro every
    induction every with
    | nil => exact fun _ => rfl
    | cons first every ih =>
      intro pixels
      rw [List.foldl_cons, ih, colours]
  rw [planes, rows, List.length_replicate]

end Tokens

/-- The size that is selected keeps within the tokens exactly for a slim image, and so do the tokens of an encoded image. -/
theorem targetSize_iff {imageW imageH patchHw maxTokens : ℕ} (width : 1 ≤ imageW) (height : 1 ≤ imageH) (patch : 1 ≤ patchHw)
    (some_ : 1 ≤ maxTokens) :
    (Budgeted patchHw maxTokens (targetSize Real.sqrt imageW imageH patchHw maxTokens) ↔
      Slim imageW imageH patchHw maxTokens) ∧
      ∀ (decode : Bytes → Except VisionError RgbImage) (resize : RgbImage → UInt32 → UInt32 → List (Fin channels → UInt8))
        (config : VisionConfig ℝ) (encoded : Bytes) (image : RgbImage), decode encoded = .ok image → image.width = imageW →
        image.height = imageH → 1 ≤ config.patchSize →
        ∃ preprocessed count, preprocessBytes Real.sqrt decode resize config encoded = .ok preprocessed ∧
          projectedTokenCount config preprocessed = .ok count ∧
          (count ≤ maxImageTokens ↔ Slim imageW imageH (config.patchSize * merge) maxImageTokens) := by
  refine ⟨budgeted_iff width height patch some_, ?_⟩
  rintro decode resize config encoded image decoded rfl rfl patch
  obtain ⟨columns, rows, size, -, -, few⟩ :=
    targetSize_grid width height (Nat.mul_pos patch (by decide : 1 ≤ merge)) (by decide : 1 ≤ maxImageTokens)
  rw [preprocessBytes, decoded]
  dsimp only [bind, Except.bind]
  rw [size]
  exact ⟨_, _, rfl, projectedTokenCount_grid patch rfl rfl (length_planes _ _ _), few⟩

theorem targetSize_iff_screen : Budgeted 28 4096 (targetSize Real.sqrt 1920 1080 28 4096) :=
  (targetSize_iff (by decide) (by decide) (by decide) (by decide)).1.mpr (by decide)

/-- An image of one line is given more patches than there are tokens. -/
theorem line_exceeds_tokens : ¬Budgeted 28 4096 (targetSize Real.sqrt 140000 1 28 4096) := by
  rw [budgeted_iff (by decide) (by decide) (by decide) (by decide)]
  decide

end Muser.Vision
