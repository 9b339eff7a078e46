import Muser.Quant.Dequant

/-! # Products with quantized blocks

Each product decodes the blocks of a row as it sums. They are written several times, in the order of the loops of
each: element by element, with the scales applied once for a part, and in vectors of four lanes.
-/

namespace Muser.Quant

/-- A part of a list that has to lie inside of it. -/
def cut {α : Type} (list : List α) (start count : ℕ) : Option (List α) :=
  if start + count ≤ list.length then some (slice list start count) else none

variable {R : Type} [CommRing R] (single : UInt32 → R)

/-- Add up something over the whole blocks of a row. -/
def overBlocks (blockSize elements : ℕ) (step : R → Bytes → List R → R) (blocks : Bytes) (x : List R) (n : ℕ) : Option R :=
  (List.range (n / elements)).foldlM (fun acc b => do
    let block ← cut blocks (b * blockSize) blockSize
    let xBlock ← cut x (b * elements) elements
    some (step acc block xBlock)) 0

/-- A sum that a loop accumulates from zero. -/
def total (turns : ℕ) (value : ℕ → R) : R := (List.range turns).foldl (fun acc turn => acc + value turn) 0

/-! ## Blocks of 32 numbers -/

def stepQ8 (acc : R) (block : Bytes) (x : List R) : R :=
  acc + total 32 (fun i => (signed (byteAt block (2 + i)) : R) * x.getD i 0) * halfAt single block 0

def dotQ8F32 : Bytes → List R → ℕ → Option R := overBlocks 34 32 (stepQ8 single)

def stepQ4_0 (acc : R) (block : Bytes) (x : List R) : R :=
  let blockSum := (List.range 16).foldl (fun blockSum i =>
    let byte := byteAt block (2 + i)
    blockSum + ((signed (low byte) - 8 : ℤ) : R) * x.getD i 0 + ((signed (high byte) - 8 : ℤ) : R) * x.getD (i + 16) 0) 0
  acc + blockSum * halfAt single block 0

def dotQ4_0F32 : Bytes → List R → ℕ → Option R := overBlocks 18 32 (stepQ4_0 single)

/-! ## Blocks of 256 numbers -/

def stepQ4KScalar (acc : R) (block : Bytes) (x : List R) : R :=
  (List.range 4).foldl (fun acc group =>
    let (d1, m1) := scaleMin single block (2 * group)
    let (d2, m2) := scaleMin single block (2 * group + 1)
    (List.range 32).foldl (fun acc l =>
      let q := byteAt block (16 + (32 * group + l))
      acc + (d1 * ((low q).toNat : R) + -m1) * x.getD (64 * group + l) 0
        + (d2 * ((high q).toNat : R) + -m2) * x.getD (64 * group + l + 32) 0) acc) acc

def dotQ4KF32Scalar : Bytes → List R → ℕ → Option R := overBlocks 144 256 (stepQ4KScalar single)

/-- The products and the numbers are summed before they are scaled. -/
def stepQ4KLlama (sumf : R) (block : Bytes) (x : List R) : R :=
  let d := halfAt single block 0
  let dmin := halfAt single block 2
  (List.range 4).foldl (fun sumf group =>
    let (scLo, mLo) := getScaleMinK4 block (2 * group)
    let (scHi, mHi) := getScaleMinK4 block (2 * group + 1)
    let q l := byteAt block (16 + (32 * group + l))
    let accLo := total 32 fun l => ((low (q l)).toNat : R) * x.getD (64 * group + l) 0
    let accHi := total 32 fun l => ((high (q l)).toNat : R) * x.getD (64 * group + l + 32) 0
    let xsumLo := total 32 fun l => x.getD (64 * group + l) 0
    let xsumHi := total 32 fun l => x.getD (64 * group + l + 32) 0
    sumf + (d * ((scLo.toNat : R) * accLo + (scHi.toNat : R) * accHi)
      - dmin * ((mLo.toNat : R) * xsumLo + (mHi.toNat : R) * xsumHi))) sumf

def dotQ4KF32Llama : Bytes → List R → ℕ → Option R := overBlocks 144 256 (stepQ4KLlama single)

/-- Four vectors of four lanes. -/
abbrev Lanes (R : Type) := ℕ → ℕ → R

def horizontalSum (lanes : ℕ → R) : R := lanes 0 + lanes 1 + (lanes 2 + lanes 3)

/-- Add sixteen products to as many lanes. -/
def accumulateQ4KNibbles16 (accs : Lanes R) (nibbles : ℕ → UInt8) (x : ℕ → R) (scale min : R) : Lanes R :=
  fun vector lane => accs vector lane + (-min + ((nibbles (4 * vector + lane)).toNat : R) * scale) * x (4 * vector + lane)

def stepQ4KNeon (acc : R) (block : Bytes) (x : List R) : R :=
  let accs := (List.range 4).foldl (fun accs group =>
    let (d1, m1) := scaleMin single block (2 * group)
    let (d2, m2) := scaleMin single block (2 * group + 1)
    (List.range 2).foldl (fun accs half =>
      let q i := byteAt block (16 + (32 * group + (16 * half + i)))
      let accs := accumulateQ4KNibbles16 accs (fun i => low (q i)) (fun i => x.getD (64 * group + (16 * half + i)) 0) d1 m1
      accumulateQ4KNibbles16 accs (fun i => high (q i)) (fun i => x.getD (64 * group + (16 * half + i) + 32) 0) d2 m2)
        accs) fun _ _ => 0
  acc + (horizontalSum (accs 0) + horizontalSum (accs 1) + horizontalSum (accs 2) + horizontalSum (accs 3))

/-- The vector products answer zero for a row that is not made of whole blocks, or too short; the size of the blocks cannot
overflow, it is less than the number of elements. -/
def whenWhole (blockSize : ℕ) (dot : Bytes → List R → ℕ → Option R) (blocks : Bytes) (x : List R) (n : ℕ) : Option R :=
  if n % 256 ≠ 0 then some 0
  else if blocks.length < n / 256 * blockSize ∨ x.length < n then some 0
  else dot blocks x n

def dotQ4KF32Neon : Bytes → List R → ℕ → Option R := whenWhole 144 (overBlocks 144 256 (stepQ4KNeon single))

def stepQ5K (acc : R) (block : Bytes) (x : List R) : R :=
  (List.range 4).foldl (fun acc group =>
    let (d1, m1) := scaleMin single block (2 * group)
    let (d2, m2) := scaleMin single block (2 * group + 1)
    (List.range 32).foldl (fun acc l =>
      acc + (d1 * (lowQ5K block group l : R) - m1) * x.getD (64 * group + l) 0
        + (d2 * (highQ5K block group l : R) - m2) * x.getD (64 * group + l + 32) 0) acc) acc

def dotQ5KF32 : Bytes → List R → ℕ → Option R := overBlocks 176 256 (stepQ5K single)

/-- Two groups of two halves, whose sums of sixteen products are scaled; how the products are summed is left open. -/
def stepQ6K (sums : Bytes → List R → (group half : ℕ) → Fin 4 → R) (sumf : R) (block : Bytes) (x : List R) : R :=
  let d := halfAt single block 208
  (List.range 2).foldl (fun sumf group => (List.range 2).foldl (fun sumf half =>
    let sum part := sums block x group half part * (scaleQ6K block group half part : R)
    sumf + d * (sum 0 + sum 1 + sum 2 + sum 3)) sumf) sumf

/-- One product after another. -/
def sumsQ6K (block : Bytes) (x : List R) (group half : ℕ) (part : Fin 4) : R :=
  total 16 fun l => (quantQ6K block group (16 * half + l) part : R) * x.getD (128 * group + (16 * half + l) +
    32 * (part : ℕ)) 0

def dotQ6KF32Llama : Bytes → List R → ℕ → Option R := overBlocks 210 256 (stepQ6K single sumsQ6K)

def dotQ6KF32Scalar : Bytes → List R → ℕ → Option R := overBlocks 210 256 (stepQ6K single sumsQ6K)

/-- Multiply four lanes, and add them in order. -/
def orderedMulAccumulate4 (acc : R) (vals x : ℕ → R) : R := acc + vals 0 * x 0 + vals 1 * x 1 + vals 2 * x 2 + vals 3 * x 3

def sumsQ6KNeon (block : Bytes) (x : List R) (group half : ℕ) (part : Fin 4) : R :=
  (List.range 4).foldl (fun sum quad => orderedMulAccumulate4 sum
    (fun i => (quantQ6K block group (16 * half + (4 * quad + i)) part : R))
    (fun i => x.getD (128 * group + (16 * half + (4 * quad + i)) + 32 * (part : ℕ)) 0)) 0

def dotQ6KF32Neon : Bytes → List R → ℕ → Option R := whenWhole 210 (overBlocks 210 256 (stepQ6K single sumsQ6KNeon))

/-! ## They sum the stores -/

theorem total_eq (turns : ℕ) (value : ℕ → R) : total turns value = ∑ turn ∈ Finset.range turns, value turn := by
  rw [total, foldl_range_eq fun _ _ => rfl, zero_add]

/-- A loop that adds two things in each turn. -/
theorem foldl_pairs (first second : ℕ → R) (turns : ℕ) (acc : R) :
    (List.range turns).foldl (fun acc turn => acc + first turn + second turn) acc =
      acc + ∑ turn ∈ Finset.range turns, (first turn + second turn) :=
  foldl_range_eq (fun acc turn => add_assoc acc (first turn) (second turn)) turns acc

/-- The weights that a block of the activations gives. -/
def weights (x : List R) (index : ℕ) : R := x.getD index 0

variable (acc : R) (block : Bytes) (x : List R)

theorem stepQ8_eq : stepQ8 single acc block x = acc + weigh (weights x) (dequantQ8_0 single block) := by
  rw [stepQ8, dequantQ8_0, total_eq, List.map_eq_flatMap, weigh_loop, Finset.sum_mul]
  congr 1
  apply Finset.sum_congr rfl
  intro i _
  simp only [weigh_cons, weigh_nil, weights]
  ring

theorem stepQ4_0_eq : stepQ4_0 single acc block x = acc + weigh (weights x) (dequantQ4_0 single block) := by
  rw [stepQ4_0, dequantQ4_0, weigh_loop]
  dsimp only
  rw [foldl_pairs, zero_add, Finset.sum_mul]
  congr 1
  apply Finset.sum_congr rfl
  intro i _
  simp only [weigh_cons, weigh_nil, weights]
  ring

theorem stepQ4KScalar_eq : stepQ4KScalar single acc block x = acc + weigh (weights x) (dequantQ4K single block) := by
  rw [stepQ4KScalar, dequantQ4K, weigh_loop]
  apply foldl_range_eq
  intro acc group
  dsimp only
  rw [weigh_loop]
  apply foldl_range_eq
  intro acc l
  simp only [weigh_cons, weigh_nil, weights]
  ring

theorem stepQ4KLlama_eq : stepQ4KLlama single acc block x = acc + weigh (weights x) (dequantQ4K single block) := by
  rw [stepQ4KLlama, dequantQ4K, weigh_loop]
  apply foldl_range_eq
  intro acc group
  dsimp only
  rw [weigh_loop]
  simp only [total_eq, weigh_cons, weigh_nil, weights, scaleMin, Finset.mul_sum, ← Finset.sum_add_distrib,
    ← Finset.sum_sub_distrib]
  congr 1
  apply Finset.sum_congr rfl
  intro l _
  ring

/-- The sum of all lanes. -/
def lanesSum (accs : Lanes R) : R := horizontalSum (accs 0) + horizontalSum (accs 1) + horizontalSum (accs 2) +
    horizontalSum (accs 3)

/-- Sixteen numbers in four vectors of four lanes. -/
theorem lanesSum_eq (value : ℕ → R) :
    lanesSum (fun vector lane => value (4 * vector + lane)) = ∑ index ∈ Finset.range 16, value index := by
  simp only [lanesSum, horizontalSum, Finset.sum_range_succ, Finset.sum_range_zero]
  ring

theorem lanesSum_add (accs more : Lanes R) :
    lanesSum (fun vector lane => accs vector lane + more vector lane) = lanesSum accs + lanesSum more := by
  simp only [lanesSum, horizontalSum]
  ring

/-- Accumulating adds the sixteen products. -/
theorem lanesSum_accumulate (accs : Lanes R) (nibbles : ℕ → UInt8) (x : ℕ → R) (scale min : R) :
    lanesSum (accumulateQ4KNibbles16 accs nibbles x scale min) =
      lanesSum accs + ∑ index ∈ Finset.range 16, (scale * ((nibbles index).toNat : R) - min) * x index := by
  have products := lanesSum_eq fun index => (-min + ((nibbles index).toNat : R) * scale) * x index
  have sum : ∑ index ∈ Finset.range 16, (-min + ((nibbles index).toNat : R) * scale) * x index =
      ∑ index ∈ Finset.range 16, (scale * ((nibbles index).toNat : R) - min) * x index :=
    Finset.sum_congr rfl fun index _ => by ring
  rw [← sum, ← products, ← lanesSum_add]
  rfl

/-- What turns add to all lanes. -/
theorem lanesSum_foldl {step : Lanes R → ℕ → Lanes R} {value : ℕ → R}
    (steps : ∀ accs turn, lanesSum (step accs turn) = lanesSum accs + value turn)
    (turns : ℕ) (accs : Lanes R) :
    lanesSum ((List.range turns).foldl step accs) = lanesSum accs + ∑ turn ∈ Finset.range turns, value turn := by
  induction turns with
  | zero => exact (add_zero _).symm
  | succ turns ih =>
    rw [List.range_succ, List.foldl_append, List.foldl_cons, List.foldl_nil, steps, ih, Finset.sum_range_succ, add_assoc]

theorem stepQ4KNeon_eq : stepQ4KNeon single acc block x = acc + weigh (weights x) (dequantQ4K single block) := by
  rw [stepQ4KNeon, dequantQ4K, weigh_loop]
  dsimp only
  rw [← lanesSum, lanesSum_foldl]
  rotate_left
  · intro accs group
    apply lanesSum_foldl
    intro accs half
    rw [lanesSum_accumulate, lanesSum_accumulate, add_assoc, ← Finset.sum_add_distrib]
  have zero : lanesSum (fun _ _ => (0 : R)) = 0 := by simp only [lanesSum, horizontalSum, add_zero]
  rw [zero, zero_add]
  congr 1
  apply Finset.sum_congr rfl
  intro group _
  rw [weigh_loop, sum_blocks 2 16]
  apply Finset.sum_congr rfl
  intro half _
  apply Finset.sum_congr rfl
  intro index _
  simp only [weigh_cons, weigh_nil, weights, Nat.mul_comm half 16, add_zero]

theorem stepQ5K_eq : stepQ5K single acc block x = acc + weigh (weights x) (dequantQ5K single block) := by
  rw [stepQ5K, dequantQ5K, weigh_loop]
  apply foldl_range_eq
  intro acc group
  dsimp only
  rw [weigh_loop]
  apply foldl_range_eq
  intro acc l
  simp only [weigh_cons, weigh_nil, weights]
  ring

variable {sums : Bytes → List R → ℕ → ℕ → Fin 4 → R}

/-- However the sixteen products of a part are summed, the block is the sum of its stores. -/
theorem stepQ6K_eq (same : sums block x = sumsQ6K block x) :
    stepQ6K single sums acc block x = acc + weigh (weights x) (dequantQ6K single block) := by
  rw [stepQ6K, dequantQ6K, weigh_loop, same]
  apply foldl_range_eq
  intro acc group
  rw [weigh_loop, sum_blocks 2 16]
  apply foldl_range_eq
  intro acc half
  simp only [sumsQ6K, total_eq, Finset.sum_mul, ← Finset.sum_add_distrib, Finset.mul_sum]
  congr 1
  apply Finset.sum_congr rfl
  intro l mem
  have within : (half * 16 + l) / 16 = half := by
    have := Finset.mem_range.mp mem
    lia
  have parts : List.finRange 4 = [0, 1, 2, 3] := by decide
  rw [within, parts]
  simp only [List.map_cons, List.map_nil, weigh_cons, weigh_nil, weights, Nat.mul_comm half 16]
  ring

theorem sumsQ6KNeon_eq : sumsQ6KNeon block x = sumsQ6K (R := R) block x := by
  funext group half part
  have products := @foldl_range_eq R _ (fun sum quad => orderedMulAccumulate4 sum
    (fun i => (quantQ6K block group (16 * half + (4 * quad + i)) part : R))
    (fun i => x.getD (128 * group + (16 * half + (4 * quad + i)) + 32 * (part : ℕ)) 0)) _ (fun sum quad => by
      rw [orderedMulAccumulate4, add_assoc, add_assoc, add_assoc]) 4 0
  rw [sumsQ6K, total_eq, sum_blocks 4 4, sumsQ6KNeon, products, zero_add]
  apply Finset.sum_congr rfl
  intro quad _
  simp only [Finset.sum_range_succ, Finset.sum_range_zero, Nat.mul_comm quad 4]
  ring

theorem dotQ6K_eq (same : ∀ block x, sums block x = sumsQ6K block x) :
    stepQ6K single sums = fun acc block x => acc + weigh (weights x) (dequantQ6K single block) := by
  funext acc block x
  exact stepQ6K_eq single acc block x (same block x)

end Muser.Quant
