import Mathlib.Algebra.Field.Rat
import Muser.Gguf.Ranges
import Muser.Quant.Weights

/-! # Row products agree with dequantization

A product with a row sums the elements that dequantizing gives, over the blocks that it covers. The products that
are written for a type cover whole blocks, so that they miss the rest of a row that ends inside of one; and the rows
of a tensor whose size was computed from all of its elements need not fit then either.
-/

namespace Muser.Quant

open Gguf (GgmlType GgufFile TensorInfo)

variable {α : Type} {n : ℕ} {row : Bytes}

variable {start count : ℕ} {list : List α} {r : ℕ} {shape : List UInt64}

theorem cut_eq_some_iff {list part : List α} :
    cut list start count = some part ↔ start + count ≤ list.length ∧ slice list start count = part := by
  rw [cut]
  split
  · next inside => rw [Option.some.injEq, and_iff_right inside]
  · next outside => exact iff_of_false nofun fun both => outside both.1

theorem cut_of_le (inside : start + count ≤ list.length) :
    cut list start count = some (slice list start count) := if_pos inside

variable {R : Type} [CommRing R] (single : UInt32 → R) (nvfp4 : Nvfp4 R)

/-- An element of a row. -/
def rowElement (dtype : GgmlType) (row : Bytes) (index : ℕ) : R :=
  ((dequantBlock single dtype (slice row (index / dtype.blockElements * dtype.blockSize) dtype.blockSize)
    (List.replicate dtype.blockElements 0)).getD []).getD (index % dtype.blockElements) 0

variable {single} {dtype : GgmlType}

/-- An element of a block does not depend on the buffer. -/
theorem rowElement_block {row : Bytes} {b index : ℕ} {stores : List (ℕ × R)} {scratch : List R}
    (inside : index < dtype.blockElements)
    (are : blockStores single dtype (slice row (b * dtype.blockSize) dtype.blockSize) = some stores)
    (length : scratch.length = dtype.blockElements) :
    rowElement single dtype row (b * dtype.blockElements + index) = (storeAll scratch stores).getD index 0 := by
  have block : (b * dtype.blockElements + index) / dtype.blockElements = b := by
    rw [Nat.mul_comm, Nat.mul_add_div dtype.blockElements_pos, Nat.div_eq_of_lt inside, Nat.add_zero]
  have within : (b * dtype.blockElements + index) % dtype.blockElements = index := by
    rw [Nat.mul_comm, Nat.mul_add_mod, Nat.mod_eq_of_lt inside]
  rw [rowElement, block, within, dequantBlock, are, Option.map_some, Option.getD_some,
    (fills_blockStores single are).storeAll_eq List.length_replicate length]

/-! ## Products over whole blocks -/

theorem getD_slice {x : List R} {start count index : ℕ} (inside : index < count) :
    (slice x start count).getD index 0 = x.getD (start + index) 0 := by
  rw [List.getD_eq_getElem?_getD, getElem?_slice, if_pos inside, List.getD_eq_getElem?_getD]

/-- A product that sums the stores of each block sums the elements of the whole blocks. -/
theorem overBlocks_eq {stores : Bytes → List (ℕ × R)} (are : ∀ block, blockStores single dtype block = some (stores block))
    {blocks : Bytes} {x : List R} {n : ℕ} (long : n / dtype.blockElements * dtype.blockSize ≤ blocks.length)
    (fits : n ≤ x.length) :
    overBlocks dtype.blockSize dtype.blockElements (fun acc block x => acc + weigh (weights x) (stores block)) blocks x n =
      some (∑ index ∈ Finset.range (n / dtype.blockElements * dtype.blockElements),
        rowElement single dtype blocks index * x.getD index 0) := by
  have whole : n / dtype.blockElements * dtype.blockElements ≤ n := Nat.div_mul_le_self n _
  rw [overBlocks]
  generalize n / dtype.blockElements = count at long whole
  induction count with
  | zero =>
    rw [Nat.zero_mul]
    rfl
  | succ count ih =>
    rw [Nat.succ_mul] at long whole
    rw [List.range_succ, List.foldlM_append, ih (by lia) (by lia), Nat.succ_mul, Finset.sum_range_add]
    simp only [List.foldlM_cons, List.foldlM_nil, Option.bind_eq_bind, Option.bind_some, cut_of_le (show _ ≤ _ from long),
      cut_of_le (show _ ≤ _ from whole.trans fits), pure]
    have zeros : (List.replicate dtype.blockElements (0 : R)).length = dtype.blockElements := List.length_replicate
    rw [Option.some.injEq, ← (fills_blockStores single (are _)).sum_eq zeros]
    congr 1
    apply Finset.sum_congr rfl
    intro index mem
    have inside := Finset.mem_range.mp mem
    rw [weights, getD_slice inside, rowElement_block inside (are _) zeros]

/-- The vector products cover a row of whole blocks or nothing. -/
theorem whenWhole_eq {blockSize : ℕ} {dot : Bytes → List R → ℕ → Option R} {blocks : Bytes} {x : List R}
    (long : n / 256 * blockSize ≤ blocks.length) (fits : n ≤ x.length) :
    whenWhole blockSize dot blocks x n = if n % 256 = 0 then dot blocks x n else some 0 := by
  rw [whenWhole]
  by_cases whole : n % 256 = 0
  · rw [if_neg (not_not.mpr whole), if_pos whole, if_neg (by omega)]
  · rw [if_pos whole, if_neg whole]

/-! ## Rows that are dequantized -/

/-- A part of a block of `size` that begins at `b * size` and is cut short at `n`. -/
theorem min_succ (b size n : ℕ) : min ((b + 1) * size) n = min (b * size) n + min size (n - b * size) := by
  rw [Nat.succ_mul]
  lia

theorem sum_cut (b size n : ℕ) (value : ℕ → R) :
    ∑ index ∈ Finset.range (min ((b + 1) * size) n), value index =
      ∑ index ∈ Finset.range (min (b * size) n), value index + ∑ index ∈ Finset.range (min size (n - b * size)),
        value (b * size + index) := by
  rw [min_succ, Finset.sum_range_add]
  congr 1
  by_cases inside : b * size ≤ n
  · rw [Nat.min_eq_left inside]
  · have none_ : min size (n - b * size) = 0 := by lia
    rw [none_]
    rfl

theorem lt_ceilDiv {b size n : ℕ} (positive : 0 < size) : b < n ⌈/⌉ size ↔ b * size < n := by
  rw [← not_le, ceilDiv_le_iff_le_smul positive, not_le, smul_eq_mul, Nat.mul_comm]

theorem min_ceilDiv (n : ℕ) {size : ℕ} (positive : 0 < size) : min (n ⌈/⌉ size * size) n = n :=
  Nat.min_eq_right (not_lt.mp fun less => lt_irrefl _ ((lt_ceilDiv positive).mpr less))

/-- The blocks of a row are decoded one after another. -/
theorem cut_block {b n : ℕ} (long : n ⌈/⌉ dtype.blockElements * dtype.blockSize ≤ row.length)
    (before : b < n ⌈/⌉ dtype.blockElements) :
    cut row (b * dtype.blockSize) dtype.blockSize = some (slice row (b * dtype.blockSize) dtype.blockSize) := by
  apply cut_of_le
  calc b * dtype.blockSize + dtype.blockSize = (b + 1) * dtype.blockSize := (Nat.succ_mul _ _).symm
    _ ≤ n ⌈/⌉ dtype.blockElements * dtype.blockSize := Nat.mul_le_mul_right _ before
    _ ≤ row.length := long

theorem streamStep_eq (supported : Dequantized dtype) {row : Bytes} {x scratch : List R} {n b : ℕ} (acc : R)
    (long : n ⌈/⌉ dtype.blockElements * dtype.blockSize ≤ row.length) (fits : n ≤ x.length)
    (before : b < n ⌈/⌉ dtype.blockElements)
    (length : scratch.length = dtype.blockElements) :
    ∃ next : List R, next.length = dtype.blockElements ∧ streamStep single dtype row x n scratch acc b =
      some (next, acc + ∑ index ∈ Finset.range (min dtype.blockElements (n - b * dtype.blockElements)),
        rowElement single dtype row (b * dtype.blockElements + index) * x.getD (b * dtype.blockElements + index) 0) := by
  obtain ⟨stores, are⟩ := Option.isSome_iff_exists.mp
    ((blockStores_isSome_iff single dtype (slice row (b * dtype.blockSize) dtype.blockSize)).mpr supported)
  refine ⟨storeAll scratch stores, (length_storeAll _ _).trans length, ?_⟩
  have part : b * dtype.blockElements + min dtype.blockElements (n - b * dtype.blockElements) ≤ x.length := by
    have := (lt_ceilDiv dtype.blockElements_pos).mp before
    omega
  simp only [streamStep, cut_block long before, dequantBlock, are, Option.map_some, Option.bind_eq_bind,
    Option.bind_some, cut_of_le part]
  rw [foldl_range_eq fun _ _ => rfl]
  congr 3
  apply Finset.sum_congr rfl
  intro index mem
  have inside := lt_of_lt_of_le (Finset.mem_range.mp mem) (Nat.min_le_left _ _)
  rw [rowElement_block inside are length]

/-- The blocks are streamed up to the end of the row. -/
theorem dotStreamed_eq (supported : Dequantized dtype) {x : List R}
    (long : n ⌈/⌉ dtype.blockElements * dtype.blockSize ≤ row.length) (fits : n ≤ x.length) :
    dotStreamed single dtype row x n = some (∑ index ∈ Finset.range n,
      rowElement single dtype row index * x.getD index 0) := by
  have run (count : ℕ) (few : count ≤ n ⌈/⌉ dtype.blockElements) : ∃ scratch : List R, scratch.length = dtype.blockElements ∧
      (List.range count).foldlM (fun state b => streamStep single dtype row x n state.1 state.2 b)
        (List.replicate dtype.blockElements (0 : R), (0 : R)) =
      some (scratch, ∑ index ∈ Finset.range (min (count * dtype.blockElements) n),
        rowElement single dtype row index * x.getD index 0) := by
    induction count with
    | zero =>
      refine ⟨List.replicate dtype.blockElements 0, List.length_replicate, ?_⟩
      rw [Nat.zero_mul, Nat.zero_min]
      rfl
    | succ count ih =>
      obtain ⟨scratch, length, so⟩ := ih (Nat.le_of_succ_le few)
      obtain ⟨next, length', step⟩ := @streamStep_eq R _ single dtype supported row x scratch n count _ long fits few length
      refine ⟨next, length', ?_⟩
      rw [List.range_succ, List.foldlM_append, so, sum_cut]
      exact (bind_pure _).trans step
  obtain ⟨scratch, -, so⟩ := run _ le_rfl
  rw [dotStreamed, so, min_ceilDiv n dtype.blockElements_pos]
  rfl

variable {t : TensorView}

theorem slice_slice {start count first size : ℕ} (inside : first + size ≤ count) :
    slice (slice list start count) first size = slice list (start + first) size := by
  apply List.ext_getElem?
  intro index
  rw [getElem?_slice, getElem?_slice, getElem?_slice]
  by_cases within : index < size
  · rw [if_pos within, if_pos within, if_pos (by omega), Nat.add_assoc]
  · rw [if_neg within, if_neg within]

/-- A block of a row is dequantized over its elements, and no others. -/
theorem dequantStep_eq (supported : Dequantized t.dtype) {r b : ℕ} {row : Bytes} (is : t.row r = some row)
    {scratch out : List R}
    (before : b < t.nIn ⌈/⌉ t.dtype.blockElements) (length : scratch.length = t.dtype.blockElements)
    (fits : out.length = t.nIn) :
    ∃ next out' : List R, dequantStep single t r scratch out b = some (next, out') ∧
      next.length = t.dtype.blockElements ∧ out'.length = t.nIn ∧
      ∀ index, out'[index]? = if index < b * t.dtype.blockElements then out[index]?
        else if index < b * t.dtype.blockElements + min t.dtype.blockElements (t.nIn - b * t.dtype.blockElements)
          then some (rowElement single t.dtype row index) else out[index]? := by
  obtain ⟨inside, rfl⟩ := cut_eq_some_iff.mp is
  have within : b * t.dtype.blockSize + t.dtype.blockSize ≤ t.rowBytes := by
    rw [← Nat.succ_mul]
    exact Nat.mul_le_mul_right _ before
  have block : cut t.raw (r * t.rowBytes + b * t.dtype.blockSize) t.dtype.blockSize =
      some (slice (slice t.raw (r * t.rowBytes) t.rowBytes) (b * t.dtype.blockSize) t.dtype.blockSize) := by
    rw [slice_slice within]
    exact cut_of_le (by omega)
  obtain ⟨stores, are⟩ := Option.isSome_iff_exists.mp ((blockStores_isSome_iff single t.dtype
    (slice (slice t.raw (r * t.rowBytes) t.rowBytes) (b * t.dtype.blockSize) t.dtype.blockSize)).mpr supported)
  have begins := (lt_ceilDiv t.dtype.blockElements_pos).mp before
  have part : b * t.dtype.blockElements + min t.dtype.blockElements (t.nIn - b * t.dtype.blockElements) ≤
    out.length := by omega
  have length' : (storeAll scratch stores).length = t.dtype.blockElements := (length_storeAll _ _).trans length
  have taken : ((storeAll scratch stores).take (min t.dtype.blockElements (t.nIn - b * t.dtype.blockElements))).length =
      min t.dtype.blockElements (t.nIn - b * t.dtype.blockElements) := by
    rw [List.length_take, length']
    omega
  refine ⟨storeAll scratch stores, splice out (b * t.dtype.blockElements)
    ((storeAll scratch stores).take (min t.dtype.blockElements (t.nIn - b * t.dtype.blockElements))), ?_, length', ?_, ?_⟩
  · simp only [dequantStep, block, dequantBlock, are, Option.map_some, Option.bind_eq_bind, Option.bind_some, cut_of_le part]
  · rw [length_splice (by rwa [taken]), fits]
  · intro index
    rw [getElem?_splice (by rwa [taken]), taken]
    split
    · rfl
    · next after =>
      split
      · next last =>
        have short : index - b * t.dtype.blockElements <
          min t.dtype.blockElements (t.nIn - b * t.dtype.blockElements) := by omega
        have less : index - b * t.dtype.blockElements < t.dtype.blockElements := by omega
        have element := @rowElement_block R _ single t.dtype _ b _ _ scratch less are length
        rw [show b * t.dtype.blockElements + (index - b * t.dtype.blockElements) = index by omega] at element
        rw [List.getElem?_take_of_lt short, element, List.getD_eq_getElem?_getD, List.getElem?_eq_getElem (by omega),
          Option.getD_some]
      · rfl

/-- The elements of a row, in order. -/
def decoded (single : UInt32 → R) (dtype : GgmlType) (row : Bytes) (n : ℕ) : List R :=
    (List.range n).map (rowElement single dtype row)

theorem dequantRow_eq (supported : Dequantized t.dtype) (is : t.row r = some row) {out : List R}
    (fits : out.length = t.nIn) :
    dequantRow single nvfp4 t r out = some (decoded single t.dtype row t.nIn) := by
  have run (count : ℕ) (few : count ≤ t.nIn ⌈/⌉ t.dtype.blockElements) : ∃ scratch out' : List R,
      (List.range count).foldlM (fun state b => dequantStep single t r state.1 state.2 b)
        (List.replicate (max t.dtype.blockElements 1) (0 : R), out) = some (scratch, out') ∧
      scratch.length = t.dtype.blockElements ∧ out'.length = t.nIn ∧
      ∀ index < min (count * t.dtype.blockElements) t.nIn, out'[index]? = some (rowElement single t.dtype row index) := by
    induction count with
    | zero =>
      refine ⟨List.replicate (max t.dtype.blockElements 1) 0, out, rfl, ?_, fits, fun index less => by omega⟩
      rw [List.length_replicate]
      exact max_eq_left t.dtype.blockElements_pos
    | succ count ih =>
      obtain ⟨scratch, out', so, length, length', elements⟩ := ih (Nat.le_of_succ_le few)
      obtain ⟨next, out'', step, more, more', written⟩ :=
        @dequantStep_eq R _ single t supported r count row is scratch out' few length length'
      refine ⟨next, out'', ?_, more, more', fun index less => ?_⟩
      · rw [List.range_succ, List.foldlM_append, so]
        exact (bind_pure _).trans step
      · rw [min_succ] at less
        rw [written]
        split
        · next early => exact elements index (by omega)
        · rw [if_pos (by omega)]
  obtain ⟨scratch, out', so, -, length, elements⟩ := run _ le_rfl
  have other : t.dtype ≠ .nvfp4_E2M1 := by
    intro is
    rw [is] at supported
    exact supported
  rw [dequantRow, if_neg other, so]
  rw [min_ceilDiv _ t.dtype.blockElements_pos] at elements
  have same : out' = decoded single t.dtype row t.nIn := by
    apply List.ext_getElem?
    intro index
    by_cases inside : index < t.nIn
    · rw [elements index inside, decoded, List.getElem?_map, List.getElem?_range inside, Option.map_some]
    · rw [List.getElem?_eq_none (by omega),
        List.getElem?_eq_none (by rw [decoded, List.length_map, List.length_range]; omega)]
  rw [same]
  rfl

/-! ## Rows that are multiplied -/

/-- How many elements of a row a product covers: the vector products all or none, those that are written for a type
whole blocks, and what is streamed all. -/
def covered (form : Form) (dtype : GgmlType) (n : ℕ) : ℕ :=
  if form = .neon ∧ (dtype = .q4_K ∨ dtype = .q6_K) then if n % dtype.blockElements = 0 then n else 0
  else if dtype = .q4_0 ∨ dtype = .q8_0 ∨ dtype = .q4_K ∨ dtype = .q5_K ∨ dtype = .q6_K then
    n / dtype.blockElements * dtype.blockElements
  else n

theorem covered_le (form : Form) (dtype : GgmlType) (n : ℕ) : covered form dtype n ≤ n := by
  rw [covered]
  split
  · split
    · exact le_rfl
    · exact Nat.zero_le n
  · split
    · exact Nat.div_mul_le_self n dtype.blockElements
    · exact le_rfl

/-- A row of whole blocks is covered. -/
theorem covered_of_dvd (form : Form) (whole : dtype.blockElements ∣ n) : covered form dtype n = n := by
  rw [covered, Nat.div_mul_cancel whole, if_pos (Nat.mod_eq_zero_of_dvd whole), ite_self, ite_self]

theorem whole_le (n : ℕ) (dtype : GgmlType) :
    n / dtype.blockElements * dtype.blockSize ≤ n ⌈/⌉ dtype.blockElements * dtype.blockSize := by
  apply Nat.mul_le_mul_right
  rw [Gguf.ceilDiv_eq _ _ dtype.blockElements_pos]
  exact Nat.div_le_div_right (Nat.le_add_right n _)

/-- A vector product of a type. -/
theorem whenWhole_overBlocks {stores : Bytes → List (ℕ × R)}
    (are : ∀ block, blockStores single dtype block = some (stores block))
    (size : dtype.blockElements = 256) {blocks : Bytes} {x : List R} {n : ℕ}
    (long : n / dtype.blockElements * dtype.blockSize ≤ blocks.length)
    (fits : n ≤ x.length) :
    whenWhole dtype.blockSize (overBlocks dtype.blockSize dtype.blockElements fun acc block x =>
      acc + weigh (weights x) (stores block)) blocks x n =
      some (∑ index ∈ Finset.range (if n % dtype.blockElements = 0 then n else 0),
        rowElement single dtype blocks index * x.getD index 0) := by
  have whole := overBlocks_eq are long fits
  rw [size] at long
  rw [whenWhole_eq long fits, size]
  rw [size] at whole
  split
  · next divides => rw [whole, Nat.div_mul_cancel (Nat.dvd_of_mod_eq_zero divides)]
  · rfl

/-- A product of single elements. -/
theorem weigh_one (x : List R) (acc value : R) : acc + weigh (weights x) [(0, value)] = acc + value * x.getD 0 0 := by
  rw [weigh_cons, weigh_nil, add_zero, weights]

/-- A product sums the elements that it covers. -/
theorem dotRow_eq (supported : Dequantized t.dtype) (form : Form) {x : List R} (long : row.length = t.rowBytes)
    (fits : x.length = t.nIn) : dotRow single nvfp4 form t r row x t.nIn =
      some (∑ index ∈ Finset.range (covered form t.dtype t.nIn), rowElement single t.dtype row index * x.getD index 0) := by
  obtain ⟨raw, dtype, n, nOut, aux⟩ := t
  have long' : n ⌈/⌉ dtype.blockElements * dtype.blockSize ≤ row.length := long.ge
  have whole : n / dtype.blockElements * dtype.blockSize ≤ row.length := (whole_le n dtype).trans long'
  cases dtype <;> try exact supported.elim
  case f32 =>
    have product := @overBlocks_eq R _ single .f32 _ (fun block => rfl) row x n whole fits.ge
    simp only [weigh_one] at product
    simpa [covered, dotRow, GgmlType.blockElements, GgmlType.blockSize] using product
  case f16 =>
    have product := @overBlocks_eq R _ single .f16 _ (fun block => rfl) row x n whole fits.ge
    simp only [weigh_one] at product
    simpa [covered, dotRow, GgmlType.blockElements, GgmlType.blockSize] using product
  case bf16 | q4_1 | q5_0 | q5_1 => cases form <;> exact dotStreamed_eq supported long' fits.ge
  case q4_0 =>
    have product := @overBlocks_eq R _ single .q4_0 _ (fun block => rfl) row x n whole fits.ge
    simp only [← stepQ4_0_eq] at product
    cases form <;> exact product
  case q8_0 =>
    have product := @overBlocks_eq R _ single .q8_0 _ (fun block => rfl) row x n whole fits.ge
    simp only [← stepQ8_eq] at product
    cases form <;> exact product
  case q5_K =>
    have product := @overBlocks_eq R _ single .q5_K _ (fun block => rfl) row x n whole fits.ge
    simp only [← stepQ5K_eq] at product
    cases form <;> exact product
  case q4_K =>
    have product := @overBlocks_eq R _ single .q4_K _ (fun block => rfl) row x n whole fits.ge
    cases form
    case scalar =>
      simp only [← stepQ4KScalar_eq] at product
      exact product
    case llama =>
      simp only [← stepQ4KLlama_eq] at product
      exact product
    case neon =>
      have product := @whenWhole_overBlocks R _ single .q4_K _ (fun block => rfl) rfl row x n whole fits.ge
      simp only [← stepQ4KNeon_eq] at product
      exact product
  case q6_K =>
    have product := @overBlocks_eq R _ single .q6_K _ (fun block => rfl) row x n whole fits.ge
    cases form
    case scalar | llama =>
      rw [← dotQ6K_eq single fun _ _ => rfl] at product
      exact product
    case neon =>
      have product := @whenWhole_overBlocks R _ single .q6_K _ (fun block => rfl) rfl row x n whole fits.ge
      rw [← dotQ6K_eq single sumsQ6KNeon_eq] at product
      exact product

/-! ## Where they agree -/

/-- A sum that stops early is the whole one for all weights just where the rest is zero. -/
theorem sums_agree_iff {first n : ℕ} (le : first ≤ n) (value : ℕ → R) :
    (∀ x : List R, x.length = n → ∑ index ∈ Finset.range first, value index * x.getD index 0 =
        ∑ index ∈ Finset.range n, value index * x.getD index 0) ↔
      ∀ index, first ≤ index → index < n → value index = 0 := by
  have split (x : List R) : ∑ index ∈ Finset.range n, value index * x.getD index 0 =
      ∑ index ∈ Finset.range first, value index * x.getD index 0 + ∑ index ∈ Finset.Ico first n,
        value index * x.getD index 0 :=
    (Finset.sum_range_add_sum_Ico _ le).symm
  constructor
  · intro agree index after inside
    have one := agree ((List.replicate n 0).set index 1) (by rw [List.length_set, List.length_replicate])
    rw [split, left_eq_add, Finset.sum_eq_single index] at one
    · rwa [List.getD_eq_getElem?_getD, List.getElem?_set_self (by rwa [List.length_replicate]), Option.getD_some,
        mul_one] at one
    · intro other _ ne
      rw [List.getD_eq_getElem?_getD, List.getElem?_set_ne ne.symm, List.getElem?_replicate]
      split
      · exact mul_zero _
      · exact mul_zero _
    · exact fun outside => absurd (Finset.mem_Ico.mpr ⟨after, inside⟩) outside
  · intro zero x _
    rw [split, left_eq_add]
    apply Finset.sum_eq_zero
    intro index mem
    obtain ⟨after, inside⟩ := Finset.mem_Ico.mp mem
    rw [zero index after inside, zero_mul]

/-- The bytes of a row lie inside of its tensor, and its product with any vector is that of the dequantized row. -/
def RowAgrees (single : UInt32 → R) (nvfp4 : Nvfp4 R) (t : TensorView) (r : ℕ) : Prop :=
  ∃ row, t.row r = some row ∧ ∀ (form : Form) (x out : List R), x.length = t.nIn → out.length = t.nIn →
    ∃ values, dequantRow single nvfp4 t r out = some values ∧ values.length = t.nIn ∧
      dotRow single nvfp4 form t r row x t.nIn = some (∑ index ∈ Finset.range t.nIn, values.getD index 0 * x.getD index 0)

/-- The elements of a row that a product does not cover are zero. -/
def RestZero (single : UInt32 → R) (t : TensorView) (r : ℕ) : Prop :=
  ∀ form index, covered form t.dtype t.nIn ≤ index → index < t.nIn →
    rowElement single t.dtype (slice t.raw (r * t.rowBytes) t.rowBytes) index = 0

theorem getD_decoded {n index : ℕ} (inside : index < n) :
    (decoded single dtype row n).getD index 0 = rowElement single dtype row index := by
  rw [decoded, List.getD_eq_getElem?_getD, List.getElem?_map, List.getElem?_range inside, Option.map_some, Option.getD_some]

theorem rowAgrees_iff (supported : Dequantized t.dtype) (r : ℕ) :
    RowAgrees single nvfp4 t r ↔ r * t.rowBytes + t.rowBytes ≤ t.raw.length ∧ RestZero single t r := by
  by_cases inside : r * t.rowBytes + t.rowBytes ≤ t.raw.length
  · have is : t.row r = some (slice t.raw (r * t.rowBytes) t.rowBytes) := cut_of_le inside
    have sums (x : List R) : ∑ index ∈ Finset.range t.nIn,
      (decoded single t.dtype (slice t.raw (r * t.rowBytes) t.rowBytes) t.nIn).getD index 0 *
        x.getD index 0 = ∑ index ∈ Finset.range t.nIn,
          rowElement single t.dtype (slice t.raw (r * t.rowBytes) t.rowBytes) index * x.getD index 0 :=
      Finset.sum_congr rfl fun index mem => by rw [getD_decoded (Finset.mem_range.mp mem)]
    rw [RowAgrees, and_iff_right inside, RestZero]
    simp only [is, Option.some.injEq, exists_eq_left']
    refine forall_congr' fun form => ?_
    rw [← sums_agree_iff (covered_le form t.dtype t.nIn)]
    refine forall_congr' fun x => ?_
    constructor
    · intro agree length
      obtain ⟨values, dequantized, -, product⟩ := agree (List.replicate t.nIn 0) length List.length_replicate
      rw [dequantRow_eq nvfp4 supported is List.length_replicate, Option.some.injEq] at dequantized
      subst dequantized
      rw [dotRow_eq nvfp4 supported form (length_slice inside) length, sums, Option.some.injEq] at product
      exact product
    · intro agree out length length'
      refine ⟨_, dequantRow_eq nvfp4 supported is length', by rw [decoded, List.length_map, List.length_range], ?_⟩
      rw [dotRow_eq nvfp4 supported form (length_slice inside) length, sums, agree length]
  · refine iff_of_false ?_ fun both => inside both.1
    rintro ⟨row, is, -⟩
    exact inside (cut_eq_some_iff.mp is).1

/-! ## Tensors of a file -/

theorem elementCount_eq (small : Gguf.product shape ≤ Gguf.u64Max) : (elementCount shape).toNat = Gguf.product shape := by
  have wraps (first : UInt64) : (shape.foldl (· * ·) first).toNat = first.toNat * Gguf.product shape % 2 ^ 64 := by
    clear small
    induction shape generalizing first with
    | nil =>
      change first.toNat = first.toNat * 1 % 2 ^ 64
      rw [Nat.mul_one, Nat.mod_eq_of_lt first.toNat_lt]
    | cons dimension shape ih =>
      rw [List.foldl_cons, ih, UInt64.toNat_mul, Nat.mod_mul_mod, Gguf.product, Gguf.product, List.map_cons,
        List.prod_cons, Nat.mul_assoc]
  have one := wraps 1
  rw [Gguf.u64Max] at small
  rw [elementCount, one, UInt64.toNat_one, Nat.one_mul, Nat.mod_eq_of_lt (by omega)]

/-- The entry of a tensor that lies inside of the parsed file: nothing wraps. -/
theorem entryOf_eq {tensor : TensorInfo} {dataOffset fileEnd : ℕ} (inside : tensor.Inside dataOffset fileEnd) :
    entryOf dataOffset tensor =
        { start := dataOffset + tensor.offset.toNat
          len := Gguf.product tensor.shape ⌈/⌉ tensor.dtype.blockElements * tensor.dtype.blockSize,
            dtype := tensor.dtype, shape := tensor.shape } ∧
      dataOffset + tensor.offset.toNat +
        Gguf.product tensor.shape ⌈/⌉ tensor.dtype.blockElements * tensor.dtype.blockSize ≤ Gguf.u64Max := by
  have addressed := inside.addressed
  have size : Gguf.product tensor.shape ⌈/⌉ tensor.dtype.blockElements * tensor.dtype.blockSize ≤ tensor.exactSize := by
    apply Nat.mul_le_mul_right
    rw [Gguf.ceilDiv_eq _ _ tensor.dtype.blockElements_pos, Gguf.ceilDiv_eq _ _ tensor.dtype.blockElements_pos]
    exact Nat.div_le_div_right (Nat.add_le_add_right (le_max_left _ _) _)
  have count := elementCount_eq (inside.counted.1 _ (List.prefix_refl _))
  refine ⟨?_, by lia⟩
  rw [entryOf, count, wrap, wrap]
  rw [Gguf.u64Max] at addressed
  rw [Nat.mod_eq_of_lt (by lia), Nat.mod_eq_of_lt (by lia)]

/-- Every tensor has an entry that ends inside of the mapped bytes. -/
theorem indexTensors_eq {mapped : Bytes} {dataOffset : ℕ} {tensors : List TensorInfo} {index index' : List (Text × Entry)}
    (indexed : tensors.foldlM (indexTensor mapped dataOffset) index = .ok index') :
    index' = (tensors.map fun tensor => (tensor.name, entryOf dataOffset tensor)).reverse ++ index ∧
      ∀ tensor ∈ tensors, wrap ((entryOf dataOffset tensor).start + (entryOf dataOffset tensor).len) ≤ mapped.length := by
  induction tensors generalizing index with
  | nil =>
    cases indexed
    exact ⟨rfl, nofun⟩
  | cons tensor tensors ih =>
    rw [List.foldlM_cons] at indexed
    obtain ⟨next, first, rest⟩ := bind_eq_ok_iff.mp indexed
    obtain ⟨inside, added⟩ := check_eq_ok_iff.mp first
    cases added
    obtain ⟨rfl, others⟩ := ih rest
    refine ⟨by rw [List.map_cons, List.reverse_cons, List.append_assoc]; rfl, ?_⟩
    rw [List.forall_mem_cons]
    rw [reject_eq_ok_iff, decide_eq_false_iff_not, not_lt] at inside
    exact ⟨inside, others⟩

theorem open_eq_ok {mapped : Bytes} {file : GgufFile} {weights : MuseWeights}
    (opened : MuseWeights.open mapped file = .ok weights) :
    weights.mapped = mapped ∧ weights.index = (file.tensors.map fun tensor =>
      (tensor.name, entryOf file.dataOffset tensor)).reverse ∧
      ∀ tensor ∈ file.tensors, wrap ((entryOf file.dataOffset tensor).start + (entryOf file.dataOffset tensor).len) ≤
        mapped.length := by
  obtain ⟨index, indexed, rest⟩ := bind_eq_ok_iff.mp opened
  obtain ⟨-, rest⟩ := check_eq_ok_iff.mp rest
  obtain ⟨_, -, done⟩ := bind_eq_ok_iff.mp rest
  cases done
  obtain ⟨is, inside⟩ := indexTensors_eq indexed
  exact ⟨rfl, is.trans (List.append_nil _), inside⟩

variable {bytes mapped : Bytes} {file : GgufFile} {weights : MuseWeights} {info : TensorInfo}

/-- A view of a parsed tensor has its shape, and whole blocks for all of its elements. -/
theorem view_eq_ok (parsed : Gguf.parse bytes = .ok file) (opened : MuseWeights.open mapped file = .ok weights)
    (mem : info ∈ file.tensors)
    (viewed : weights.view info.name = .ok t) :
    t.dtype = info.dtype ∧ t.nIn = dimension info.shape 0 1 ∧ t.nOut = dimension info.shape 1 1 ∧
      t.raw.length = Gguf.product info.shape ⌈/⌉ info.dtype.blockElements * info.dtype.blockSize := by
  obtain ⟨header, rest, read, placed, is⟩ | ⟨error, failed⟩ := Gguf.parse_eq bytes
  swap
  · rw [failed] at parsed
    cases parsed
  obtain rfl := Except.ok.inj (is.symm.trans parsed)
  obtain ⟨rfl, index, ends⟩ := open_eq_ok opened
  have distinct : (weights.index.map Prod.fst).Nodup := by
    rw [index, List.map_reverse, List.nodup_reverse, List.map_map]
    exact (Gguf.readHeader_eq_ok read).names
  have found : weights.index.lookup info.name =
      some (entryOf (header.file (bytes.length - rest.length)).dataOffset info) := by
    rw [Gguf.lookup_iff_mem distinct, index, List.mem_reverse]
    exact List.mem_map_of_mem mem
  obtain ⟨entry, small⟩ := entryOf_eq (placed.inside info mem)
  have inside := ends info mem
  rw [Gguf.Header.file, entry, wrap, Nat.mod_eq_of_lt (Nat.lt_of_le_of_lt small (by decide))] at inside
  rw [MuseWeights.view, found, Gguf.Header.file, entry] at viewed
  obtain ⟨aux, -, done⟩ := bind_eq_ok_iff.mp viewed
  cases done
  exact ⟨rfl, rfl, rfl, length_slice inside⟩

/-- The rows of a tensor, each of whole blocks, need no more blocks than all of its elements. -/
def RowsFit (info : TensorInfo) : Prop :=
  dimension info.shape 1 1 * (dimension info.shape 0 1 ⌈/⌉ info.dtype.blockElements) ≤
    Gguf.product info.shape ⌈/⌉ info.dtype.blockElements

theorem product_eq (some_ : 0 ∉ shape.drop 2) :
    ∃ rest, 1 ≤ rest ∧ Gguf.product shape = dimension shape 0 1 * dimension shape 1 1 * rest := by
  rcases shape with _ | ⟨first, _ | ⟨second, shape⟩⟩
  · exact ⟨1, le_rfl, rfl⟩
  · exact ⟨1, le_rfl, by simp [Gguf.product, dimension]⟩
  · refine ⟨Gguf.product shape, ?_, by simp [Gguf.product, dimension, Nat.mul_assoc]⟩
    apply Nat.one_le_iff_ne_zero.mpr
    rw [Gguf.product, ne_eq, List.prod_eq_zero_iff, List.mem_map]
    rintro ⟨other, mem, zero⟩
    obtain rfl : other = 0 := UInt64.toNat_inj.mp zero
    exact some_ mem

/-- Rows of whole blocks fit, if no other dimension is zero. -/
theorem rowsFit_of_dvd (whole : info.dtype.blockElements ∣ dimension info.shape 0 1)
    (some_ : 0 ∉ info.shape.drop 2) : RowsFit info := by
  obtain ⟨blocks, is⟩ := whole
  have positive := info.dtype.blockElements_pos
  obtain ⟨rest, positive', product⟩ := product_eq some_
  rw [RowsFit, product, is, Gguf.ceilDiv_eq _ _ positive, Gguf.ceilDiv_eq _ _ positive, Nat.mul_assoc, Nat.mul_assoc,
    Nat.mul_add_div positive, Nat.mul_add_div positive]
  have none_ : (info.dtype.blockElements - 1) / info.dtype.blockElements = 0 := Nat.div_eq_of_lt (by omega)
  rw [none_, Nat.add_zero, Nat.add_zero, Nat.mul_comm]
  exact Nat.mul_le_mul_left blocks (Nat.le_mul_of_pos_right _ positive')

/-- The rows of a tensor of a file agree just where they fit into it and what the products do not cover is zero; and
so they do where they are made of whole blocks, and no further dimension is zero. -/
theorem row_products_iff (parsed : Gguf.parse bytes = .ok file) (opened : MuseWeights.open mapped file = .ok weights)
    (mem : info ∈ file.tensors)
    (viewed : weights.view info.name = .ok t) (supported : Dequantized info.dtype) :
    ((∀ r < t.nOut, RowAgrees single nvfp4 t r) ↔ RowsFit info ∧ ∀ r < t.nOut, RestZero single t r) ∧
      (info.dtype.blockElements ∣ t.nIn → 0 ∉ info.shape.drop 2 → ∀ r < t.nOut, RowAgrees single nvfp4 t r) := by
  obtain ⟨dtype, nIn, nOut, length⟩ := view_eq_ok parsed opened mem viewed
  have fit : RowsFit info ↔ ∀ r < t.nOut, r * t.rowBytes + t.rowBytes ≤ t.raw.length := by
    rw [RowsFit, ← nIn, ← nOut, ← Nat.mul_le_mul_right_iff info.dtype.blockSize_pos, ← length, Nat.mul_assoc, ← dtype,
      ← TensorView.rowBytes]
    constructor
    · intro all r less
      rw [← Nat.succ_mul]
      exact (Nat.mul_le_mul_right _ less).trans all
    · intro each
      cases last : t.nOut with
      | zero => rw [Nat.zero_mul]; exact Nat.zero_le _
      | succ r =>
        rw [Nat.succ_mul]
        exact each r (by lia)
  have agree : (∀ r < t.nOut, RowAgrees single nvfp4 t r) ↔ RowsFit info ∧ ∀ r < t.nOut, RestZero single t r := by
    rw [fit, ← forall₂_and]
    exact forall₂_congr fun r _ => rowAgrees_iff nvfp4 (dtype ▸ supported) r
  refine ⟨agree, fun whole some_ => agree.mpr ⟨rowsFit_of_dvd (nIn ▸ whole) some_, fun r _ form index after inside => ?_⟩⟩
  rw [covered_of_dvd form (dtype ▸ whole)] at after
  lia

/-- A tensor of two rows. -/
def rowsInfo (columns : UInt64) : TensorInfo := { name := ['w'], shape := [columns, 2], dtype := .q8_0, offset := 0 }

def rowsHeader (columns : UInt64) : Gguf.Header where
  version := 3
  metadata := [("general.alignment".toList, .u32 8)]
  tensors := [rowsInfo columns]

def rowsBytes (columns : UInt64) (count : ℕ) : Bytes := (rowsHeader columns).write 0 ++ List.replicate count 0

def rowsWeights (columns : UInt64) (count : ℕ) : MuseWeights where
  mapped := rowsBytes columns count
  index := [(['w'], entryOf 104 (rowsInfo columns))]

def rowsView (columns : UInt64) (count size : ℕ) : TensorView where
  raw := slice (rowsBytes columns count) 104 size
  dtype := .q8_0
  nIn := columns.toNat
  nOut := 2
  nvfp4 := none

/-- Two rows of half a block in one block, and two rows of a block each. -/
private theorem products_evaluated : (((rowsHeader 16).write 0).length = 98 ∧ ((rowsHeader 32).write 0).length = 98) ∧
    MuseWeights.open (rowsBytes 16 40) ((rowsHeader 16).file 98) = .ok (rowsWeights 16 40) ∧
      (rowsView 16 40 34).row 1 = none ∧
    MuseWeights.open (rowsBytes 32 74) ((rowsHeader 32).file 98) = .ok (rowsWeights 32 74) := by
  decide +kernel

theorem parse_rows {columns : UInt64} {count : ℕ} (length : ((rowsHeader columns).write 0).length = 98) (few : count < 128)
    (within : (rowsHeader columns).dataOffset 98 + (rowsInfo columns).offset.toNat +
      (rowsInfo columns).dataSize ≤ 98 + count) :
    Gguf.parse (rowsBytes columns count) = .ok ((rowsHeader columns).file 98) := by
  have limited : (rowsHeader columns).Limited :=
    { version := by simp [rowsHeader]
      entries := by simp [rowsHeader, Gguf.maxMetadataItems]
      keys := List.nodup_singleton _
      entry := by
        intro entry mem
        obtain rfl := List.mem_singleton.mp mem
        exact ⟨by decide, trivial⟩
      count := by simp [rowsHeader, Gguf.maxTensors]
      names := List.nodup_singleton _
      tensor := by
        intro tensor mem
        obtain rfl := List.mem_singleton.mp mem
        exact ⟨show Text.size ['w'] ≤ Gguf.maxGgufStringBytes by decide, show 2 ≤ Gguf.maxTensorDims by decide⟩ }
  have bytes : (rowsBytes columns count).length = 98 + count :=
    by rw [rowsBytes, List.length_append, length, List.length_replicate]
  have parsed := @Gguf.parse_write (rowsBytes columns count) 0 (rowsHeader columns) (List.replicate count 0)
    rfl (by lia) limited
    ⟨3, rfl⟩ (.inl (by lia))
  rw [length, bytes] at parsed
  apply parsed
  intro tensor mem
  obtain rfl := List.mem_singleton.mp mem
  exact within

/-- What tensors with companions stand for does not matter here. -/
def idleNvfp4 : Nvfp4 ℚ := ⟨fun _ _ _ out => out, fun _ _ _ _ _ => 0, fun _ _ _ _ => 0⟩

theorem row_products_whole : RowAgrees (fun _ => (1 : ℚ)) idleNvfp4 (rowsView 32 74 68) 0 ∧
    RowAgrees (fun _ => (1 : ℚ)) idleNvfp4 (rowsView 32 74 68) 1 := by
  have each : ∀ r < 2, RowAgrees (fun _ => (1 : ℚ)) _ (rowsView 32 74 68) r :=
    (row_products_iff idleNvfp4 (@parse_rows 32 74 products_evaluated.1.2 (by decide) (by decide))
    products_evaluated.2.2.2 List.mem_cons_self
    (show (rowsWeights 32 74).view ['w'] = .ok (rowsView 32 74 68) from rfl) trivial).2 (by decide) (by decide)
  exact ⟨each 0 (by decide), each 1 (by decide)⟩

/-- The second row of the two is outside of its tensor. -/
theorem halves_outside : Gguf.parse (rowsBytes 16 40) = .ok ((rowsHeader 16).file 98) ∧
    MuseWeights.open (rowsBytes 16 40) ((rowsHeader 16).file 98) = .ok (rowsWeights 16 40) ∧
    (rowsWeights 16 40).view ['w'] = .ok (rowsView 16 40 34) ∧
    ¬RowAgrees (fun _ => (1 : ℚ)) idleNvfp4 (rowsView 16 40 34) 1 := by
  refine ⟨parse_rows products_evaluated.1.1 (by decide) (by decide), products_evaluated.2.1, rfl, ?_⟩
  rintro ⟨row, is, -⟩
  rw [products_evaluated.2.2.1] at is
  cases is

end Muser.Quant
