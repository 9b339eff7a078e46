import Muser.Lib.Rows

/-! # Blocks of rows

Several consecutive rows copied at once from a source that holds them one after another. With one head
the copy is one block; with several it goes head by head, and within a head row by row. Either way the
buffer ends as if the rows had been written in order. A block that passes the end of the ring is two.
-/

namespace Muser

variable {α : Type}

/-- A block copied in two parts. -/
theorem splice_append {buffer first second : List α} {start : ℕ}
    (fits : start + (first ++ second).length ≤ buffer.length) :
    splice buffer start (first ++ second) = splice (splice buffer start first) (start + first.length) second := by
  rw [List.length_append] at fits
  have fitsFirst : start + first.length ≤ buffer.length := by lia
  have fitsBoth : start + (first ++ second).length ≤ buffer.length := by
    rw [List.length_append]
    lia
  have fitsSecond : start + first.length + second.length ≤ (splice buffer start first).length := by
    rw [length_splice fitsFirst]
    lia
  apply List.ext_getElem?
  intro index
  rw [getElem?_splice fitsBoth, getElem?_splice fitsSecond, getElem?_splice fitsFirst, List.length_append]
  by_cases before : index < start
  · rw [if_pos before, if_pos (by lia), if_pos before]
  · rw [if_neg before]
    by_cases within : index < start + first.length
    · rw [if_pos (by lia), if_pos within, if_neg before, if_pos within, List.getElem?_append_left (by lia)]
    · by_cases inside : index < start + first.length + second.length
      · rw [if_pos (by lia), if_neg within, if_pos inside, List.getElem?_append_right (by lia)]
        congr 1
        lia
      · rw [if_neg (by lia), if_neg within, if_neg inside, if_neg before, if_neg within]

namespace RowLayout

variable (layout : RowLayout)

/-- The pieces of one head for `count` rows from `row` on. -/
def writeColumn (buffer : List α) (head row count : ℕ) (source : List α) : List α :=
  (List.range count).foldl
    (fun buffer token =>
      splice buffer (layout.offset head (row + token))
        (slice source (token * (layout.heads * layout.width) + head * layout.width) layout.width))
    buffer

/-- The pieces of the first `heads` heads, one head after the other. -/
def writeColumns (buffer : List α) (row count : ℕ) (source : List α) (heads : ℕ) : List α :=
  (List.range heads).foldl (fun buffer head => layout.writeColumn buffer head row count source) buffer

variable {layout} {buffer source : List α} {row count other head : ℕ}

theorem length_source_piece {token : ℕ} (sized : source.length = count * (layout.heads * layout.width))
    (within : head < layout.heads) (before : token < count) :
    (slice source (token * (layout.heads * layout.width) + head * layout.width) layout.width).length = layout.width := by
  have piece : head * layout.width + layout.width ≤ layout.heads * layout.width := by
    rw [← Nat.succ_mul]
    exact Nat.mul_le_mul_right _ within
  have block : (token + 1) * (layout.heads * layout.width) ≤ count * (layout.heads * layout.width) :=
    Nat.mul_le_mul_right _ before
  rw [Nat.succ_mul] at block
  apply length_slice
  omega

theorem writeColumn_succ (buffer : List α) (head row count : ℕ) (source : List α) :
    layout.writeColumn buffer head row (count + 1) source =
      splice (layout.writeColumn buffer head row count source) (layout.offset head (row + count))
        (slice source (count * (layout.heads * layout.width) + head * layout.width) layout.width) := by
  rw [writeColumn, List.range_succ, List.foldl_append]
  rfl

theorem fits_writeColumn {total : ℕ} (fits : layout.Fits buffer)
    (sized : source.length = total * (layout.heads * layout.width)) (within : head < layout.heads)
    (held : row + total ≤ layout.capacity) (most : count ≤ total) :
    layout.Fits (layout.writeColumn buffer head row count source) := by
  induction count with
  | zero => exact fits
  | succ count ih =>
    have before := ih (by lia)
    rw [writeColumn_succ, Fits, length_splice, before]
    rw [before, length_source_piece sized within (by lia)]
    exact offset_add_width_le within (by lia)

/-- A column holds the pieces of its head in the rows written, and nothing else changes. -/
theorem slice_writeColumn {total head' : ℕ} (fits : layout.Fits buffer)
    (sized : source.length = total * (layout.heads * layout.width)) (within : head < layout.heads)
    (held : row + total ≤ layout.capacity) (held' : other < layout.capacity) (most : count ≤ total) :
    slice (layout.writeColumn buffer head row count source) (layout.offset head' other) layout.width =
      if head' = head ∧ row ≤ other ∧ other < row + count then
        slice source ((other - row) * (layout.heads * layout.width) + head * layout.width) layout.width
      else slice buffer (layout.offset head' other) layout.width := by
  induction count with
  | zero =>
    rw [if_neg (by lia)]
    rfl
  | succ count ih =>
    have before := fits_writeColumn fits sized within held (show count ≤ total by lia)
    have piece := length_source_piece sized within (show count < total by lia)
    have room : layout.offset head (row + count) +
        (slice source (count * (layout.heads * layout.width) + head * layout.width) layout.width).length ≤
          (layout.writeColumn buffer head row count source).length := by
      rw [before, piece]
      exact offset_add_width_le within (by lia)
    rw [writeColumn_succ]
    by_cases here : head' = head ∧ other = row + count
    · obtain ⟨rfl, rfl⟩ := here
      have self := slice_splice_self room
      rw [piece] at self
      rw [self, if_pos ⟨rfl, by lia, by lia⟩, Nat.add_sub_cancel_left]
    · rw [slice_splice_of_apart room, ih (by lia)]
      · have same : (head' = head ∧ row ≤ other ∧ other < row + count) ↔
            (head' = head ∧ row ≤ other ∧ other < row + (count + 1)) := by lia
        simp only [same]
      · rw [piece]
        exact offset_apart held' (by lia) here

theorem writeColumns_succ (buffer : List α) (row count : ℕ) (source : List α) (heads : ℕ) :
    layout.writeColumns buffer row count source (heads + 1) =
      layout.writeColumn (layout.writeColumns buffer row count source heads) heads row count source := by
  rw [writeColumns, List.range_succ, List.foldl_append]
  rfl

theorem fits_writeColumns {heads : ℕ} (fits : layout.Fits buffer)
    (sized : source.length = count * (layout.heads * layout.width)) (held : row + count ≤ layout.capacity)
    (most : heads ≤ layout.heads) : layout.Fits (layout.writeColumns buffer row count source heads) := by
  induction heads with
  | zero => exact fits
  | succ heads ih =>
    rw [writeColumns_succ]
    exact fits_writeColumn (ih (by lia)) sized (by lia) held (le_refl _)

theorem slice_writeColumns {heads : ℕ} (fits : layout.Fits buffer)
    (sized : source.length = count * (layout.heads * layout.width)) (held : row + count ≤ layout.capacity)
    (held' : other < layout.capacity) (most : heads ≤ layout.heads) (head : ℕ) :
    slice (layout.writeColumns buffer row count source heads) (layout.offset head other) layout.width =
      if head < heads ∧ row ≤ other ∧ other < row + count then
        slice source ((other - row) * (layout.heads * layout.width) + head * layout.width) layout.width
      else slice buffer (layout.offset head other) layout.width := by
  induction heads with
  | zero =>
    rw [if_neg (by lia)]
    rfl
  | succ heads ih =>
    rw [writeColumns_succ, slice_writeColumn (fits_writeColumns fits sized held (by lia)) sized (by lia) held held'
      (le_refl _), ih (by lia)]
    by_cases here : head = heads
    · subst here
      by_cases inside : row ≤ other ∧ other < row + count
      · rw [if_pos ⟨rfl, inside⟩, if_pos ⟨by lia, inside⟩]
      · rw [if_neg fun all => inside all.2, if_neg fun all => inside all.2, if_neg fun all => inside all.2]
    · have same : (head < heads ∧ row ≤ other ∧ other < row + count) ↔
          (head < heads + 1 ∧ row ≤ other ∧ other < row + count) := by lia
      rw [if_neg fun all => here all.1]
      simp only [same]

variable {rows : List (List α)} {position : ℕ}

/-- A piece of a row, in the source that holds the rows one after another. -/
theorem slice_flatten_piece {values : List α} {index : ℕ} (sized : layout.Sized rows) (get : rows[index]? = some values)
    (within : head < layout.heads) :
    slice rows.flatten (index * (layout.heads * layout.width) + head * layout.width) layout.width =
      slice values (head * layout.width) layout.width := by
  have row := slice_flatten sized get
  have piece : head * layout.width + layout.width ≤ layout.heads * layout.width := by
    rw [← Nat.succ_mul]
    exact Nat.mul_le_mul_right _ within
  rw [← row, slice, slice, slice, List.drop_take, List.drop_drop, List.take_take, min_eq_left (by omega)]

/-- Head by head, the rows end where writing them in order puts them. -/
theorem writeColumns_eq (fits : layout.Fits buffer) (sized : layout.Sized rows)
    (held : row + rows.length ≤ layout.capacity) :
    layout.writeColumns buffer row rows.length rows.flatten layout.heads = layout.writeFrom buffer row rows := by
  rcases Nat.eq_zero_or_pos layout.capacity with empty | room
  · have nothing : rows = [] := List.eq_nil_of_length_eq_zero (by lia)
    subst nothing
    have still (heads : ℕ) : layout.writeColumns buffer row 0 [] heads = buffer := by
      induction heads with
      | zero => rfl
      | succ heads ih =>
        rw [writeColumns_succ, ih]
        rfl
    exact still layout.heads
  have total : rows.flatten.length = rows.length * (layout.heads * layout.width) := length_flatten_of_sizes sized
  refine ext_rows (fits_writeColumns fits total held (le_refl _)) (fits_writeFrom room fits sized _) fun slot inside => ?_
  by_cases touched : row ≤ slot ∧ slot < row + rows.length
  · have get := List.getElem?_eq_getElem (show slot - row < rows.length by lia)
    have place : (row + (slot - row)) % layout.capacity = slot := by
      rw [Nat.add_sub_cancel' touched.1, Nat.mod_eq_of_lt inside]
    have written := readRow_writeFrom_of_getElem? room fits sized (by lia) get row
    rw [place] at written
    have pieces : ∀ head ∈ List.range layout.heads,
        slice (layout.writeColumns buffer row rows.length rows.flatten layout.heads) (layout.offset head slot)
          layout.width = slice rows[slot - row] (head * layout.width) layout.width := by
      intro head member
      have within := List.mem_range.mp member
      rw [slice_writeColumns fits total held inside (le_refl _), if_pos ⟨within, touched⟩,
        slice_flatten_piece sized get within]
    rw [written, readRow, List.map_congr_left pieces, flatten_slices, ← sized _ (List.getElem_mem _), List.take_length]
  · have untouched : ∀ index < rows.length, (row + index) % layout.capacity ≠ slot := by
      intro index less
      rw [Nat.mod_eq_of_lt (by lia)]
      lia
    rw [readRow_writeFrom_of_ne fits sized inside untouched, readRow, readRow]
    congr 1
    apply List.map_congr_left
    intro head _
    rw [slice_writeColumns fits total held inside (le_refl _), if_neg fun all => touched all.2]

/-- With one head, rows in a block end where writing them in order puts them. -/
theorem splice_flatten_eq (single : layout.heads = 1) (fits : layout.Fits buffer) (sized : layout.Sized rows)
    (held : row + rows.length ≤ layout.capacity) :
    splice buffer (row * layout.width) rows.flatten = layout.writeFrom buffer row rows := by
  induction rows generalizing buffer row with
  | nil => simp [splice, writeFrom]
  | cons values rows ih =>
    rw [List.length_cons] at held
    have wide : values.length = layout.width := by
      have size := sized values List.mem_cons_self
      rwa [single, Nat.one_mul] at size
    have rest : layout.Sized rows := fun other member => sized other (List.mem_cons_of_mem _ member)
    have size : rows.flatten.length = rows.length * layout.width := by
      have total := length_flatten_of_sizes rest
      rwa [single, Nat.one_mul] at total
    have whole : buffer.length = layout.capacity * layout.width := by
      rw [fits, single, Nat.one_mul]
    have room : row * layout.width + (values ++ rows.flatten).length ≤ buffer.length := by
      have block := Nat.mul_le_mul_right layout.width held
      rw [List.length_append, wide, size, whole]
      calc row * layout.width + (layout.width + rows.length * layout.width) =
            (row + (rows.length + 1)) * layout.width := by ring
        _ ≤ layout.capacity * layout.width := block
    have written : layout.writeRow buffer row values = splice buffer (row * layout.width) values := by
      have all : slice values 0 layout.width = values := by
        rw [slice, List.drop_zero, ← wide, List.take_length]
      rw [writeRow, single, writePieces_succ]
      simp only [writePieces, List.range_zero, List.foldl_nil, offset, Nat.zero_mul, Nat.zero_add, all]
    have next : row * layout.width + values.length = (row + 1) * layout.width := by
      rw [wide, Nat.succ_mul]
    rw [List.flatten_cons, splice_append room, next, writeFrom, Nat.mod_eq_of_lt (by lia), ← written]
    exact ih (fits_writeRow fits (sized values List.mem_cons_self) (by lia)) rest (by lia)

theorem writeFrom_mod (buffer : List α) (position : ℕ) (rows : List (List α)) :
    layout.writeFrom buffer (position % layout.capacity) rows = layout.writeFrom buffer position rows := by
  induction rows generalizing buffer position with
  | nil => rfl
  | cons values rows ih =>
    rw [writeFrom, writeFrom, Nat.mod_mod, ← ih _ (position % layout.capacity + 1), ← ih _ (position + 1),
      Nat.mod_add_mod]

/-- Rows that pass the end of the ring go on from its start. -/
theorem writeFrom_wrap (buffer : List α) {first : ℕ} (edge : position % layout.capacity + first = layout.capacity)
    (within : first ≤ rows.length) :
    layout.writeFrom (layout.writeFrom buffer (position % layout.capacity) (rows.take first)) 0 (rows.drop first) =
      layout.writeFrom buffer position rows := by
  have turn : (position + first) % layout.capacity = 0 := by
    rw [← Nat.mod_add_mod, edge, Nat.mod_self]
  have start := @writeFrom_mod _ layout (layout.writeFrom buffer position (rows.take first)) (position + first)
    (rows.drop first)
  rw [turn] at start
  have joined := @writeFrom_append _ layout buffer position (rows.take first) (rows.drop first)
  rw [List.take_append_drop, List.length_take_of_le within] at joined
  rw [writeFrom_mod, start, joined]

/-- The next rows of a history fill the ring without losing what it holds. -/
theorem Holds.fill {first stop count : ℕ} {history : List (List α)} (room : 0 < layout.capacity) (fits : layout.Fits buffer)
    (holds : layout.Holds buffer first (history.take stop)) (sized : layout.Sized history) (after : first ≤ stop)
    (inside : stop + count ≤ history.length) (near : stop + count ≤ first + layout.capacity) :
    layout.Holds (layout.writeFrom buffer stop (slice history stop count)) first (history.take (stop + count)) := by
  have length : (history.take stop).length = stop := List.length_take_of_le (by lia)
  have more : (slice history stop count).length = count := length_slice inside
  have extended := holds.extend room fits
    (show layout.Sized (slice history stop count) from
      fun values member => sized values (List.mem_of_mem_drop (List.mem_of_mem_take member))) (le_refl first) (by lia)
  rw [length, Nat.sub_eq_zero_of_le after, Nat.add_zero, List.drop_zero] at extended
  rwa [List.take_add]

end RowLayout

end Muser
