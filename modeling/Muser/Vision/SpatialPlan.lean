import Muser.Lib.Blocks
import Muser.Lib.Stores

/-! # The spatial plan

The tokens of an image are computed window by window, and merged cell by cell afterwards. The plan has the
order of the windows and its inverse, the windows as ranges, the place of every token in the image, and the
order of the cells.
-/

namespace Muser.Vision

structure SpatialPlan where
  gridW : ℕ
  gridH : ℕ
  sparsePermutation : List ℕ
  inversePermutation : List ℕ
  positionW : List ℕ
  positionH : List ℕ
  windowRanges : List (ℕ × ℕ)
  downsamplePermutation : List ℕ
deriving DecidableEq

def divCeil (total size : ℕ) : ℕ := (total + size - 1) / size

/-- The tokens of one window, row by row; a window at an edge may be cut short. -/
def windowTokens (gridW gridH window : ℕ) (cell : ℕ × ℕ) : List ℕ :=
  (List.range window).flatMap fun dy =>
    (List.range window).flatMap fun dx =>
      let y := cell.1 * window + dy
      let x := cell.2 * window + dx
      if y < gridH ∧ x < gridW then [y * gridW + x] else []

/-- The windows, row by row. -/
def windowCells (gridW gridH window : ℕ) : List (ℕ × ℕ) :=
  (List.range (divCeil gridH window)).flatMap fun wy => (List.range (divCeil gridW window)).map fun wx => (wy, wx)

/-- Push the tokens of a window, and their range if there are any. -/
def pushWindow (gridW gridH window : ℕ) (state : List ℕ × List (ℕ × ℕ)) (cell : ℕ × ℕ) : List ℕ × List (ℕ × ℕ) :=
  let start := state.1.length
  let sparse := state.1 ++ windowTokens gridW gridH window cell
  (sparse, if start < sparse.length then state.2 ++ [(start, sparse.length)] else state.2)

def mergeCell (gridW merge oy ox : ℕ) : List ℕ :=
  (List.range merge).flatMap fun ry => (List.range merge).flatMap fun rx => [(oy * merge + ry) * gridW + ox * merge + rx]

/-- The plan; there is none where an assertion fails. -/
def spatialPlan (gridW gridH window merge : ℕ) : Option SpatialPlan :=
  if gridW = 0 ∨ gridH = 0 ∨ window = 0 ∨ merge = 0 ∨ gridW % merge ≠ 0 ∨ gridH % merge ≠ 0 then none
  else
    let tokens := gridW * gridH
    let (sparse, ranges) := (windowCells gridW gridH window).foldl (pushWindow gridW gridH window) ([], [])
    let zeros := List.replicate tokens 0
    some
      { gridW := gridW
        gridH := gridH
        sparsePermutation := sparse
        inversePermutation := storeAll zeros sparse.zipIdx
        positionW := storeAll zeros (sparse.zipIdx.map fun entry => (entry.2, entry.1 % gridW + 1))
        positionH := storeAll zeros (sparse.zipIdx.map fun entry => (entry.2, entry.1 / gridW + 1))
        windowRanges := ranges
        downsamplePermutation :=
          (List.range (gridH / merge)).flatMap fun oy => (List.range (gridW / merge)).flatMap (mergeCell gridW merge oy) }

/-- The rows of the permutation, one after another. -/
def gatherRows {R : Type} [Zero R] (input : List R) (dim : ℕ) (permutation : List ℕ) : List R :=
  permutation.zipIdx.foldl (fun output entry => splice output (entry.2 * dim) (slice input (entry.1 * dim) dim))
    (List.replicate (permutation.length * dim) 0)

/-- Whole sizes and a rest below one. -/
theorem div_mod_of_lt {index size rest : ℕ} (inside : rest < size) :
    (index * size + rest) / size = index ∧ (index * size + rest) % size = rest := by
  rw [Nat.mul_add_mod', Nat.mod_eq_of_lt inside, Nat.mul_comm, Nat.mul_add_div (by omega),
    Nat.div_eq_of_lt inside, Nat.add_zero]
  exact ⟨rfl, rfl⟩

section Sparse

variable {gridW gridH window : ℕ}

theorem pushWindows_eq (cells : List (ℕ × ℕ)) (sparse : List ℕ) (ranges : List (ℕ × ℕ)) :
    cells.foldl (pushWindow gridW gridH window) (sparse, ranges) =
      (sparse ++ cells.flatMap (windowTokens gridW gridH window),
        ranges ++ blockRanges sparse.length (cells.map (windowTokens gridW gridH window))) := by
  induction cells generalizing sparse ranges with
  | nil => simp [blockRanges]
  | cons cell cells ih =>
    rw [List.foldl_cons, pushWindow, ih, List.flatMap_cons, List.append_assoc, List.map_cons, blockRanges,
      List.length_append]
    by_cases empty : windowTokens gridW gridH window cell = []
    · simp [empty]
    · have positive := List.length_pos_of_ne_nil empty
      rw [if_neg empty, if_pos (by dsimp only; omega), List.append_assoc]
      rfl

theorem mem_windowTokens {cell : ℕ × ℕ} {token : ℕ} (positive : 0 < gridW) :
    token ∈ windowTokens gridW gridH window cell ↔
      0 < window ∧ token / gridW < gridH ∧ cell = (token / gridW / window, token % gridW / window) := by
  simp only [windowTokens, List.mem_flatMap, List.mem_range, List.mem_ite_nil_right, List.mem_singleton]
  constructor
  · rintro ⟨dy, insideY, dx, insideX, ⟨high, wide⟩, rfl⟩
    obtain ⟨row, column⟩ := @div_mod_of_lt (cell.1 * window + dy) _ _ wide
    rw [row, column, (div_mod_of_lt insideY).1, (div_mod_of_lt insideX).1]
    exact ⟨by omega, high, rfl⟩
  · rintro ⟨some, high, rfl⟩
    refine ⟨token / gridW % window, Nat.mod_lt _ some, token % gridW % window, Nat.mod_lt _ some, ?_⟩
    rw [Nat.mul_comm _ window, Nat.mul_comm _ window, Nat.div_add_mod, Nat.div_add_mod]
    exact ⟨⟨high, Nat.mod_lt _ positive⟩, by rw [Nat.mul_comm, Nat.div_add_mod]⟩

theorem nodup_windowTokens (cell : ℕ × ℕ) : (windowTokens gridW gridH window cell).Nodup := by
  apply @nodup_flatMap_of_key ℕ ℕ _ _ (fun token => token / gridW - cell.1 * window) List.nodup_range
  · intro dy _
    apply @nodup_flatMap_of_key ℕ ℕ _ _ (fun token => token % gridW - cell.2 * window) List.nodup_range
    · intro dx _
      dsimp only
      split <;> simp
    · intro dx _ token mem
      dsimp only at mem
      split at mem
      · next inside =>
        rw [List.mem_singleton.mp mem, (div_mod_of_lt inside.2).2, Nat.add_sub_cancel_left]
      · cases mem
  · intro dy _ token mem
    obtain ⟨dx, _, mem⟩ := List.mem_flatMap.mp mem
    dsimp only at mem
    split at mem
    · next inside =>
      rw [List.mem_singleton.mp mem, (div_mod_of_lt inside.2).1, Nat.add_sub_cancel_left]
    · cases mem

theorem div_lt_divCeil {index total size : ℕ} (inside : index < total) (positive : 0 < size) :
    index / size < divCeil total size := by
  apply Nat.lt_of_succ_le
  rw [divCeil, Nat.le_div_iff_mul_le positive, Nat.succ_mul]
  have whole := Nat.div_mul_le_self index size
  omega

theorem nodup_windowCells : (windowCells gridW gridH window).Nodup := by
  apply @nodup_flatMap_of_key (ℕ × ℕ) ℕ _ _ Prod.fst List.nodup_range
  · intro wy _
    exact List.nodup_range.map fun left right same => (Prod.mk.inj same).2
  · intro wy _ cell mem
    obtain ⟨wx, _, rfl⟩ := List.mem_map.mp mem
    rfl

/-- Every token tells the window it is of. -/
theorem cell_of_mem_windowTokens (positive : 0 < gridW) (cell : ℕ × ℕ) (token : ℕ)
    (mem : token ∈ windowTokens gridW gridH window cell) : (token / gridW / window, token % gridW / window) = cell :=
  ((mem_windowTokens positive).mp mem).2.2.symm

theorem sparse_perm (positive : 0 < gridW) (some : 0 < window) :
    ((windowCells gridW gridH window).flatMap (windowTokens gridW gridH window)).Perm (List.range (gridW * gridH)) := by
  apply perm_range_of
  · apply nodup_flatMap_of_key nodup_windowCells
    · exact fun cell _ => nodup_windowTokens cell
    · exact fun cell _ => cell_of_mem_windowTokens positive cell
  · intro token
    have high : token / gridW < gridH ↔ token < gridW * gridH := by
      rw [Nat.div_lt_iff_lt_mul positive, Nat.mul_comm]
    rw [List.mem_flatMap, ← high]
    constructor
    · rintro ⟨cell, _, mem⟩
      exact ((mem_windowTokens positive).mp mem).2.1
    · intro inside
      refine ⟨_, ?_, (mem_windowTokens positive).mpr ⟨some, inside, rfl⟩⟩
      apply List.mem_flatMap.mpr
      refine ⟨_, List.mem_range.mpr (div_lt_divCeil inside some), ?_⟩
      exact List.mem_map.mpr ⟨_, List.mem_range.mpr (div_lt_divCeil (Nat.mod_lt _ positive) some), rfl⟩

end Sparse

section Downsample

variable {gridW gridH merge : ℕ}

theorem mem_mergeCell {oy ox token : ℕ} (whole : gridW = gridW / merge * merge) (inside : ox < gridW / merge) :
    token ∈ mergeCell gridW merge oy ox ↔
      0 < merge ∧ token / gridW / merge = oy ∧ token % gridW / merge = ox := by
  simp only [mergeCell, List.mem_flatMap, List.mem_range, List.mem_singleton]
  constructor
  · rintro ⟨ry, insideY, rx, insideX, rfl⟩
    have wide : ox * merge + rx < gridW := by
      have fits : (ox + 1) * merge ≤ gridW / merge * merge := Nat.mul_le_mul_right _ inside
      rw [Nat.succ_mul] at fits
      omega
    obtain ⟨row, column⟩ := @div_mod_of_lt (oy * merge + ry) _ _ wide
    rw [Nat.add_assoc, row, column, (div_mod_of_lt insideY).1, (div_mod_of_lt insideX).1]
    exact ⟨by omega, rfl, rfl⟩
  · rintro ⟨some, rfl, rfl⟩
    refine ⟨token / gridW % merge, Nat.mod_lt _ some, token % gridW % merge, Nat.mod_lt _ some, ?_⟩
    rw [Nat.add_assoc, Nat.mul_comm _ merge, Nat.mul_comm _ merge, Nat.div_add_mod, Nat.div_add_mod, Nat.mul_comm,
      Nat.div_add_mod]

theorem nodup_mergeCell {oy ox : ℕ} (whole : gridW = gridW / merge * merge) (inside : ox < gridW / merge) :
    (mergeCell gridW merge oy ox).Nodup := by
  have wide : ∀ rx < merge, ox * merge + rx < gridW := by
    intro rx insideX
    have fits : (ox + 1) * merge ≤ gridW / merge * merge := Nat.mul_le_mul_right _ inside
    rw [Nat.succ_mul] at fits
    omega
  apply @nodup_flatMap_of_key ℕ ℕ _ _ (fun token => token / gridW - oy * merge) List.nodup_range
  · intro ry _
    apply @nodup_flatMap_of_key ℕ ℕ _ _ (fun token => token % gridW - ox * merge) List.nodup_range
    · exact fun rx _ => List.nodup_singleton _
    · intro rx insideX token mem
      rw [List.mem_singleton.mp mem, Nat.add_assoc, (div_mod_of_lt (wide rx (List.mem_range.mp insideX))).2,
        Nat.add_sub_cancel_left]
  · intro ry _ token mem
    obtain ⟨rx, insideX, mem⟩ := List.mem_flatMap.mp mem
    rw [List.mem_singleton.mp mem, Nat.add_assoc, (div_mod_of_lt (wide rx (List.mem_range.mp insideX))).1,
      Nat.add_sub_cancel_left]

theorem downsample_perm (positive : 0 < gridW) (some : 0 < merge) (whole : gridW = gridW / merge * merge)
    (whole' : gridH = gridH / merge * merge) :
    ((List.range (gridH / merge)).flatMap fun oy => (List.range (gridW / merge)).flatMap (mergeCell gridW merge oy)).Perm
      (List.range (gridW * gridH)) := by
  apply perm_range_of
  · apply @nodup_flatMap_of_key ℕ ℕ _ _ (fun token => token / gridW / merge) List.nodup_range
    · intro oy _
      apply @nodup_flatMap_of_key ℕ ℕ _ _ (fun token => token % gridW / merge) List.nodup_range
      · exact fun ox inside => nodup_mergeCell whole (List.mem_range.mp inside)
      · exact fun ox inside token mem => ((mem_mergeCell whole (List.mem_range.mp inside)).mp mem).2.2
    · intro oy _ token mem
      obtain ⟨ox, inside, mem⟩ := List.mem_flatMap.mp mem
      exact ((mem_mergeCell whole (List.mem_range.mp inside)).mp mem).2.1
  · intro token
    have high : token < gridW * gridH ↔ token / gridW / merge < gridH / merge := by
      rw [Nat.div_lt_iff_lt_mul some, ← whole', Nat.div_lt_iff_lt_mul positive, Nat.mul_comm]
    rw [high]
    simp only [List.mem_flatMap, List.mem_range]
    constructor
    · rintro ⟨oy, insideY, ox, insideX, mem⟩
      rwa [((mem_mergeCell whole insideX).mp mem).2.1]
    · intro inside
      have column : token % gridW / merge < gridW / merge := by
        rw [Nat.div_lt_iff_lt_mul some, ← whole]
        exact Nat.mod_lt _ positive
      exact ⟨_, inside, _, column, (mem_mergeCell whole column).mpr ⟨some, rfl, rfl⟩⟩

theorem length_mergeCell (oy ox : ℕ) : (mergeCell gridW merge oy ox).length = merge * merge := by
  simp [mergeCell]

/-- The element of a list of rows of one length. -/
theorem getElem?_flatMap_range {α : Type} {rows size row column : ℕ} (line : ℕ → List α)
    (sizes : ∀ index, (line index).length = size)
    (insideRow : row < rows) (insideColumn : column < size) :
    ((List.range rows).flatMap line)[row * size + column]? = (line row)[column]? := by
  have found : ((List.range rows).map line)[row]? = some (line row) := by
    rw [List.getElem?_map, List.getElem?_range insideRow, Option.map_some]
  have length : ∀ piece ∈ (List.range rows).map line, piece.length = size := by
    intro piece mem
    obtain ⟨index, -, rfl⟩ := List.mem_map.mp mem
    exact sizes index
  have piece := slice_flatten length found
  rw [List.flatMap_def, ← piece, getElem?_slice, if_pos insideColumn]

/-- Each run of the order is one cell. -/
theorem slice_downsample {oy ox : ℕ} (insideY : oy < gridH / merge) (insideX : ox < gridW / merge) :
    slice ((List.range (gridH / merge)).flatMap fun oy => (List.range (gridW / merge)).flatMap (mergeCell gridW merge oy))
      ((oy * (gridW / merge) + ox) * (merge * merge)) (merge * merge) = mergeCell gridW merge oy ox := by
  have cells : ((List.range (gridH / merge)).flatMap fun oy =>
    (List.range (gridW / merge)).flatMap (mergeCell gridW merge oy)) =
      ((List.range (gridH / merge)).flatMap fun oy =>
        (List.range (gridW / merge)).map (mergeCell gridW merge oy)).flatten := by
    rw [List.flatMap_def, List.flatMap_def, List.flatten_flatten, List.map_map]
    congr 1
  rw [cells]
  apply slice_flatten
  · intro piece mem
    obtain ⟨_, _, mem⟩ := List.mem_flatMap.mp mem
    obtain ⟨_, _, rfl⟩ := List.mem_map.mp mem
    exact length_mergeCell _ _
  · rw [getElem?_flatMap_range _ (fun oy => by rw [List.length_map, List.length_range]) insideY insideX, List.getElem?_map,
      List.getElem?_range insideX, Option.map_some]

theorem getElem?_downsample {oy ox ry rx : ℕ} (insideY : oy < gridH / merge) (insideX : ox < gridW / merge)
    (insideRow : ry < merge)
    (insideColumn : rx < merge) :
    ((List.range (gridH / merge)).flatMap fun oy => (List.range (gridW / merge)).flatMap (mergeCell gridW merge oy))[
      (oy * (gridW / merge) + ox) * (merge * merge) + (ry * merge + rx)]? =
        some ((oy * merge + ry) * gridW + ox * merge + rx) := by
  have inside : ry * merge + rx < merge * merge := by
    have fits : (ry + 1) * merge ≤ merge * merge := Nat.mul_le_mul_right _ insideRow
    rw [Nat.succ_mul] at fits
    omega
  have within := congrArg (fun piece : List ℕ =>
    piece[ry * merge + rx]?) (@slice_downsample gridW gridH _ _ _ insideY insideX)
  rw [getElem?_slice, if_pos inside] at within
  rw [within, mergeCell, getElem?_flatMap_range _ (fun ry => by simp) insideRow insideColumn, ← List.map_eq_flatMap,
    List.getElem?_map,
    List.getElem?_range insideColumn, Option.map_some]

end Downsample

section Gather

variable {R : Type} [Zero R] {input : List R} {dim : ℕ}

omit [Zero R] in
/-- The loop has the rows of the done part before it. -/
theorem gatherRows_loop (rows : ℕ → List R) (permutation : List ℕ)
    (sizes : ∀ source ∈ permutation, (rows source).length = dim)
    (done rest : List R) (count : ℕ) (before : done.length = count * dim) (behind : rest.length = permutation.length * dim) :
    (permutation.zipIdx count).foldl (fun output entry => splice output (entry.2 * dim) (rows entry.1)) (done ++ rest) =
      done ++ permutation.flatMap rows := by
  induction permutation generalizing done rest count with
  | nil =>
    rw [List.length_nil, Nat.zero_mul] at behind
    rw [List.eq_nil_of_length_eq_zero behind]
    rfl
  | cons source permutation ih =>
    rw [List.forall_mem_cons] at sizes
    rw [List.length_cons, Nat.succ_mul] at behind
    have put : splice (done ++ rest) (count * dim) (rows source) = (done ++ rows source) ++ rest.drop dim := by
      rw [splice, sizes.1, ← before, List.take_left, List.drop_append, List.drop_eq_nil_of_le (by omega), List.nil_append,
        Nat.add_sub_cancel_left, List.append_assoc]
    rw [List.zipIdx_cons, List.foldl_cons, put, ih sizes.2, List.flatMap_cons, ← List.append_assoc]
    · rw [List.length_append, before, sizes.1, Nat.succ_mul]
    · rw [List.length_drop]
      omega

omit [Zero R] in
theorem length_row {tokens row : ℕ} (whole : input.length = tokens * dim) (inside : row < tokens) :
    (slice input (row * dim) dim).length = dim := by
  apply length_slice
  rw [whole, ← Nat.succ_mul]
  exact Nat.mul_le_mul_right _ inside

theorem gatherRows_eq {tokens : ℕ} {permutation : List ℕ} (whole : input.length = tokens * dim)
    (inside : ∀ source ∈ permutation, source < tokens) :
    gatherRows input dim permutation = permutation.flatMap fun source => slice input (source * dim) dim := by
  apply gatherRows_loop (fun source => slice input (source * dim) dim) permutation _ [] _ 0
  · exact (Nat.zero_mul _).symm
  · exact List.length_replicate
  · exact fun source mem => length_row whole (inside source mem)

/-- Gathered in one order and then in its inverse, the rows are as they were. -/
theorem gatherRows_inverse {tokens : ℕ} {order inverse : List ℕ} (whole : input.length = tokens * dim)
    (perm : order.Perm (List.range tokens))
    (length : inverse.length = tokens)
    (inverts : ∀ permuted original : ℕ, order[permuted]? = some original ↔ inverse[original]? = some permuted) :
    gatherRows (gatherRows input dim order) dim inverse = input := by
  have below : ∀ source ∈ order, source < tokens := fun source mem => List.mem_range.mp (perm.mem_iff.mp mem)
  have orderLength : order.length = tokens := by rw [perm.length_eq, List.length_range]
  have sizes : ∀ piece ∈ order.map fun source => slice input (source * dim) dim, piece.length = dim := by
    intro piece mem
    obtain ⟨source, among, rfl⟩ := List.mem_map.mp mem
    exact length_row whole (below source among)
  rw [gatherRows_eq whole below, List.flatMap_def]
  have gathered : (order.map fun source => slice input (source * dim) dim).flatten.length = tokens * dim := by
    rw [length_flatten_of_sizes sizes, List.length_map, orderLength]
  have belowInverse : ∀ source ∈ inverse, source < tokens := by
    intro permuted mem
    obtain ⟨original, found⟩ := List.mem_iff_getElem?.mp mem
    obtain ⟨inside, -⟩ := List.getElem?_eq_some_iff.mp ((inverts permuted original).mpr found)
    rwa [← orderLength]
  rw [gatherRows_eq gathered belowInverse]
  have rows : (inverse.map fun permuted =>
    slice (order.map fun source => slice input (source * dim) dim).flatten (permuted * dim) dim) =
      (List.range tokens).map fun original => slice input (original * dim) dim := by
    apply List.ext_getElem?
    intro original
    rw [List.getElem?_map, List.getElem?_map]
    rcases Nat.lt_or_ge original tokens with inside | outside
    · obtain ⟨permuted, found⟩ : ∃ permuted, inverse[original]? = some permuted :=
        ⟨_, List.getElem?_eq_getElem (length ▸ inside)⟩
      have source := (inverts permuted original).mpr found
      rw [found, List.getElem?_range inside, Option.map_some, Option.map_some, slice_flatten sizes]
      rw [List.getElem?_map, source, Option.map_some]
    · rw [List.getElem?_eq_none (by omega), List.getElem?_eq_none (by rwa [List.length_range])]
      rfl
  rw [List.flatMap_def, rows, flatten_slices, ← whole, List.take_length]

end Gather

/-- What the tables of a plan say, for any window and merge. -/
structure ExactPlan (plan : SpatialPlan) (gridW gridH window merge : ℕ) : Prop where
  sparse : plan.sparsePermutation.Perm (List.range (gridW * gridH))
  downsample : plan.downsamplePermutation.Perm (List.range (gridW * gridH))
  lengths : plan.inversePermutation.length = gridW * gridH ∧ plan.positionW.length = gridW * gridH ∧
    plan.positionH.length = gridW * gridH
  inverse : ∀ permuted original : ℕ,
    plan.sparsePermutation[permuted]? = some original ↔ plan.inversePermutation[original]? = some permuted
  ranges : Consecutive 0 (gridW * gridH) plan.windowRanges
  windows : ∀ left right first second : ℕ,
    plan.sparsePermutation[left]? = some first → plan.sparsePermutation[right]? = some second →
      (SameRange plan.windowRanges left right ↔
        first / gridW / window = second / gridW / window ∧ first % gridW / window = second % gridW / window)
  positions : ∀ permuted original : ℕ, plan.sparsePermutation[permuted]? = some original →
    plan.positionW[permuted]? = some (original % gridW + 1) ∧ plan.positionH[permuted]? = some (original / gridW + 1)
  cells : ∀ oy < gridH / merge, ∀ ox < gridW / merge, ∀ ry < merge, ∀ rx < merge,
    plan.downsamplePermutation[(oy * (gridW / merge) + ox) * (merge * merge) + (ry * merge + rx)]? =
      some ((oy * merge + ry) * gridW + ox * merge + rx)
  gathered : ∀ (R : Type) [Zero R] (input : List R) (dim : ℕ), input.length = gridW * gridH * dim →
    gatherRows (gatherRows input dim plan.sparsePermutation) dim plan.inversePermutation = input

section Tables

variable {tokens : ℕ} {sparse : List ℕ}

theorem inverse_of_perm (perm : sparse.Perm (List.range tokens)) (permuted original : ℕ) :
    sparse[permuted]? = some original ↔ (storeAll (List.replicate tokens 0) sparse.zipIdx)[original]? = some permuted := by
  have once : (sparse.zipIdx.map Prod.fst).Nodup := by
    rw [List.zipIdx_map_fst]
    exact perm.nodup_iff.mpr List.nodup_range
  have stored : ∀ {permuted original : ℕ}, sparse[permuted]? = some original →
      (storeAll (List.replicate tokens 0) sparse.zipIdx)[original]? = some permuted := by
    intro permuted original found
    apply @getElem?_storeAll_of_mem _ _ _ once (original, permuted)
    · exact List.mk_mem_zipIdx_iff_getElem?.mpr found
    · rw [List.length_replicate]
      exact List.mem_range.mp (perm.mem_iff.mp (List.mem_of_getElem? found))
  refine ⟨stored, fun found => ?_⟩
  obtain ⟨inside, -⟩ := List.getElem?_eq_some_iff.mp found
  rw [length_storeAll, List.length_replicate] at inside
  obtain ⟨place, there⟩ := List.mem_iff_getElem?.mp (perm.mem_iff.mpr (List.mem_range.mpr inside))
  rw [stored there, Option.some.injEq] at found
  rwa [← found]

/-- A table by the permuted place. -/
theorem position_of_perm (perm : sparse.Perm (List.range tokens)) (value : ℕ → ℕ) {permuted original : ℕ}
    (found : sparse[permuted]? = some original) :
    (storeAll (List.replicate tokens 0) (sparse.zipIdx.map fun entry => (entry.2, value entry.1)))[permuted]? =
      some (value original) := by
  have once : ((sparse.zipIdx.map fun entry => (entry.2, value entry.1)).map Prod.fst).Nodup := by
    rw [List.map_map]
    change (sparse.zipIdx.map Prod.snd).Nodup
    rw [List.zipIdx_map_snd]
    exact List.nodup_range'
  apply @getElem?_storeAll_of_mem _ _ _ once (permuted, value original)
  · exact List.mem_map.mpr ⟨(original, permuted), List.mk_mem_zipIdx_iff_getElem?.mpr found, rfl⟩
  · obtain ⟨inside, -⟩ := List.getElem?_eq_some_iff.mp found
    rwa [List.length_replicate, ← @List.length_range tokens, ← perm.length_eq]

end Tables

/-- Positive sizes, with sides that are whole cells, give a plan, and its tables are exact. -/
theorem spatialPlan_exact {gridW gridH window merge : ℕ} (wide : 0 < gridW) (high : 0 < gridH) (some : 0 < window)
    (positive : 0 < merge) (wholeW : merge ∣ gridW) (wholeH : merge ∣ gridH) :
    ∃ plan, spatialPlan gridW gridH window merge = Option.some plan ∧ ExactPlan plan gridW gridH window merge := by
  have sound : ¬(gridW = 0 ∨ gridH = 0 ∨ window = 0 ∨ merge = 0 ∨ gridW % merge ≠ 0 ∨ gridH % merge ≠ 0) := by
    rw [Nat.mod_eq_zero_of_dvd wholeW, Nat.mod_eq_zero_of_dvd wholeH]
    omega
  rw [spatialPlan, if_neg sound]
  refine ⟨_, rfl, ?_⟩
  replace wholeW := (Nat.div_mul_cancel wholeW).symm
  replace wholeH := (Nat.div_mul_cancel wholeH).symm
  rw [pushWindows_eq, List.nil_append, List.nil_append]
  have perm := @sparse_perm gridW gridH window wide some
  constructor
  case sparse => exact perm
  case downsample => exact downsample_perm wide positive wholeW wholeH
  case lengths => simp
  case inverse => exact inverse_of_perm perm
  case ranges =>
    have ranges := consecutive_blockRanges 0 ((windowCells gridW gridH window).map (windowTokens gridW gridH window))
    rwa [Nat.zero_add, ← List.flatMap_def, perm.length_eq, List.length_range] at ranges
  case windows =>
    intro left right first second foundLeft foundRight
    have same := sameRange_iff nodup_windowCells (fun cell _ => cell_of_mem_windowTokens wide cell) 0 foundLeft foundRight
    rw [Nat.zero_add, Nat.zero_add, Prod.mk.injEq] at same
    exact same
  case positions =>
    intro permuted original found
    exact ⟨position_of_perm perm (fun token => token % gridW + 1) found,
      position_of_perm perm (fun token => token / gridW + 1) found⟩
  case cells => exact fun oy insideY ox insideX ry insideRow rx insideColumn =>
    getElem?_downsample insideY insideX insideRow insideColumn
  case gathered =>
    intro R _ input dim whole
    apply gatherRows_inverse whole perm
    · rw [length_storeAll, List.length_replicate]
    · exact inverse_of_perm perm

theorem spatialPlan_exact_ragged :
    ∃ plan, spatialPlan 4 2 3 2 = some plan ∧ plan.windowRanges = [(0, 6), (6, 8)] ∧ ExactPlan plan 4 2 3 2 := by
  obtain ⟨plan, planned, exact⟩ :=
    @spatialPlan_exact 4 2 3 2 (by decide) (by decide) (by decide) (by decide) (by decide) (by decide)
  refine ⟨plan, planned, ?_, exact⟩
  cases planned
  decide

end Muser.Vision
