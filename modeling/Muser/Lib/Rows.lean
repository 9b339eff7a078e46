import Mathlib.Data.List.Basic
import Mathlib.Data.List.Range
import Mathlib.Tactic.Ring

/-! # Rows in a flat buffer

A buffer holds `capacity` rows. A row is cut into `heads` pieces of `width` elements, and the pieces
of one head lie together for all rows; with one head the rows simply follow one another. Writing a
row changes that row and no other, and a buffer is determined by its rows. A ring puts the row of a
position into the slot the position leaves modulo the capacity.
-/

namespace Muser

variable {α : Type}

section Slices

def slice (buffer : List α) (start count : ℕ) : List α := (buffer.drop start).take count

/-- Copy `source` over the elements from `start` on. -/
def splice (buffer : List α) (start : ℕ) (source : List α) : List α :=
  buffer.take start ++ (source ++ buffer.drop (start + source.length))

variable {buffer source : List α} {start other count : ℕ}

theorem length_splice (fits : start + source.length ≤ buffer.length) :
    (splice buffer start source).length = buffer.length := by
  simp only [splice, List.length_append, List.length_take, List.length_drop]
  lia

theorem length_slice (fits : start + count ≤ buffer.length) : (slice buffer start count).length = count := by
  rw [slice, List.length_take, List.length_drop]
  lia

theorem getElem?_slice (index : ℕ) :
    (slice buffer start count)[index]? = if index < count then buffer[start + index]? else none := by
  rw [slice, List.getElem?_take, List.getElem?_drop]

theorem getElem?_splice (fits : start + source.length ≤ buffer.length) (index : ℕ) :
    (splice buffer start source)[index]? =
      if index < start then buffer[index]?
      else if index < start + source.length then source[index - start]? else buffer[index]? := by
  have taken : (buffer.take start).length = start := by
    rw [List.length_take]
    lia
  rw [splice, List.getElem?_append, List.getElem?_append, taken, List.getElem?_take, List.getElem?_drop]
  split
  · rfl
  · next later =>
    have within : index - start < source.length ↔ index < start + source.length := by lia
    simp only [within]
    split
    · rfl
    · congr 1
      lia

theorem slice_splice_self (fits : start + source.length ≤ buffer.length) :
    slice (splice buffer start source) start source.length = source := by
  apply List.ext_getElem?
  intro index
  rw [getElem?_slice, getElem?_splice fits]
  split
  · next within =>
    rw [if_neg (by lia), if_pos (by lia), Nat.add_sub_cancel_left]
  · next beyond => rw [List.getElem?_eq_none (by lia)]

theorem slice_splice_of_apart (fits : start + source.length ≤ buffer.length)
    (apart : other + count ≤ start ∨ start + source.length ≤ other) :
    slice (splice buffer start source) other count = slice buffer other count := by
  apply List.ext_getElem?
  intro index
  rw [getElem?_slice, getElem?_slice, getElem?_splice fits]
  split
  · next within =>
    rcases apart with before | after
    · rw [if_pos (by lia)]
    · rw [if_neg (by lia), if_neg (by lia)]
  · rfl

theorem slice_splice_inside (fits : start + source.length ≤ buffer.length) (after : start ≤ other)
    (within : other + count ≤ start + source.length) :
    slice (splice buffer start source) other count = slice source (other - start) count := by
  apply List.ext_getElem?
  intro index
  rw [getElem?_slice, getElem?_slice, getElem?_splice fits]
  split
  · rw [if_neg (by lia), if_pos (by lia)]
    congr 1
    lia
  · rfl

/-- Consecutive slices of one size put together. -/
theorem flatten_slices (size count : ℕ) (buffer : List α) :
    ((List.range count).map fun index => slice buffer (index * size) size).flatten = buffer.take (count * size) := by
  induction count with
  | zero => simp
  | succ count ih =>
    rw [List.range_succ, List.map_append, List.flatten_append, ih, Nat.succ_mul, List.take_add]
    simp [slice]

/-- One of several pieces of one size put together. -/
theorem slice_flatten {size : ℕ} {pieces : List (List α)} (sizes : ∀ piece ∈ pieces, piece.length = size) {index : ℕ}
    {piece : List α} (get : pieces[index]? = some piece) : slice pieces.flatten (index * size) size = piece := by
  induction pieces generalizing index with
  | nil => simp at get
  | cons head pieces ih =>
    have length := sizes head List.mem_cons_self
    rw [List.flatten_cons, slice]
    cases index with
    | zero =>
      cases get
      rw [Nat.zero_mul, List.drop_zero, ← length, List.take_left]
    | succ index =>
      rw [Nat.succ_mul, Nat.add_comm, ← List.drop_drop, ← length, List.drop_left, length]
      exact ih (fun piece member => sizes piece (List.mem_cons_of_mem _ member)) (by simpa using get)

variable {pieces : List (List α)} {size : ℕ}

theorem length_flatten_of_sizes (sizes : ∀ piece ∈ pieces, piece.length = size) :
    pieces.flatten.length = pieces.length * size := by
  induction pieces with
  | nil => simp
  | cons head pieces ih =>
    rw [List.flatten_cons, List.length_append, sizes head List.mem_cons_self,
      ih fun piece member => sizes piece (List.mem_cons_of_mem _ member), List.length_cons, Nat.succ_mul, Nat.add_comm]

theorem split_flatten_of_sizes (sizes : ∀ piece ∈ pieces, piece.length = size) (count : ℕ) :
    pieces.flatten.take (count * size) = (pieces.take count).flatten ∧
      pieces.flatten.drop (count * size) = (pieces.drop count).flatten := by
  induction pieces generalizing count with
  | nil => simp
  | cons head pieces ih =>
    have length := sizes head List.mem_cons_self
    cases count with
    | zero => simp
    | succ count =>
      obtain ⟨front, behind⟩ := ih (fun piece member => sizes piece (List.mem_cons_of_mem _ member)) count
      rw [List.flatten_cons, List.take_succ_cons, List.flatten_cons, List.drop_succ_cons, Nat.succ_mul,
        Nat.add_comm, ← length,
        List.take_length_add_append, List.drop_length_add_append, length, front, behind]
      exact ⟨rfl, rfl⟩

variable (source) in
/-- The front of a buffer after a copy: what was before it, the copy, and what is behind it. -/
theorem take_splice_add (inside : start ≤ buffer.length) (behind : ℕ) :
    (splice buffer start source).take (start + source.length + behind) =
      buffer.take start ++ (source ++ slice buffer (start + source.length) behind) := by
  have front : (buffer.take start).length = start := List.length_take_of_le inside
  have whole : start + source.length + behind = (buffer.take start).length + (source.length + behind) := by lia
  rw [splice, slice, whole, List.take_length_add_append, List.take_length_add_append]

end Slices

structure RowLayout where
  heads : ℕ
  width : ℕ
  capacity : ℕ

namespace RowLayout

variable (layout : RowLayout)

/-- Where a head's piece of a row starts. -/
def offset (head row : ℕ) : ℕ := (head * layout.capacity + row) * layout.width

def Fits (buffer : List α) : Prop := buffer.length = layout.heads * layout.capacity * layout.width

def readRow (buffer : List α) (row : ℕ) : List α :=
  ((List.range layout.heads).map fun head => slice buffer (layout.offset head row) layout.width).flatten

/-- Write the pieces of the first `heads` heads. -/
def writePieces (buffer : List α) (row : ℕ) (values : List α) (heads : ℕ) : List α :=
  (List.range heads).foldl
    (fun buffer head => splice buffer (layout.offset head row) (slice values (head * layout.width) layout.width)) buffer

def writeRow (buffer : List α) (row : ℕ) (values : List α) : List α := layout.writePieces buffer row values layout.heads

variable {layout} {buffer values : List α} {row other head : ℕ}

theorem offset_add_width_le (within : head < layout.heads) (held : row < layout.capacity) :
    layout.offset head row + layout.width ≤ layout.heads * layout.capacity * layout.width := by
  have block : head * layout.capacity + row + 1 ≤ layout.heads * layout.capacity := by
    calc head * layout.capacity + row + 1 ≤ head * layout.capacity + layout.capacity := by lia
      _ = (head + 1) * layout.capacity := by rw [Nat.succ_mul]
      _ ≤ layout.heads * layout.capacity := Nat.mul_le_mul_right _ within
  calc layout.offset head row + layout.width = (head * layout.capacity + row + 1) * layout.width := by
        rw [offset, Nat.succ_mul]
    _ ≤ layout.heads * layout.capacity * layout.width := Nat.mul_le_mul_right _ block

/-- Pieces of different heads or rows do not overlap. -/
theorem offset_apart {head' : ℕ} (held : row < layout.capacity) (held' : other < layout.capacity)
    (differ : ¬(head = head' ∧ row = other)) :
    layout.offset head row + layout.width ≤ layout.offset head' other ∨
      layout.offset head' other + layout.width ≤ layout.offset head row := by
  have blocks : head * layout.capacity + row ≠ head' * layout.capacity + other := by
    intro same
    have rows : row = other := by
      have modulo := congrArg (· % layout.capacity) same
      simpa [Nat.add_mod, Nat.mod_eq_of_lt held, Nat.mod_eq_of_lt held'] using modulo
    subst rows
    have products : head * layout.capacity = head' * layout.capacity := by lia
    exact differ ⟨Nat.eq_of_mul_eq_mul_right (by lia) products, rfl⟩
  rcases Nat.lt_or_gt_of_ne blocks with before | after
  · left
    have step := Nat.mul_le_mul_right layout.width before
    rw [Nat.succ_mul] at step
    exact step
  · right
    have step := Nat.mul_le_mul_right layout.width after
    rw [Nat.succ_mul] at step
    exact step

theorem writePieces_succ (buffer : List α) (row : ℕ) (values : List α) (heads : ℕ) :
    layout.writePieces buffer row values (heads + 1) =
      splice (layout.writePieces buffer row values heads) (layout.offset heads row)
        (slice values (heads * layout.width) layout.width) := by
  rw [writePieces, List.range_succ, List.foldl_append]
  rfl

theorem length_piece (sized : values.length = layout.heads * layout.width) (within : head < layout.heads) :
    (slice values (head * layout.width) layout.width).length = layout.width := by
  apply length_slice
  rw [sized]
  have step := Nat.mul_le_mul_right layout.width within
  rwa [Nat.succ_mul] at step

theorem length_writePieces (fits : layout.Fits buffer) (sized : values.length = layout.heads * layout.width)
    (held : row < layout.capacity) {heads : ℕ} (most : heads ≤ layout.heads) :
    (layout.writePieces buffer row values heads).length = layout.heads * layout.capacity * layout.width := by
  induction heads with
  | zero => exact fits
  | succ heads ih =>
    rw [writePieces_succ, length_splice, ih (by lia)]
    rw [ih (by lia), length_piece sized (by lia)]
    exact offset_add_width_le (by lia) held

/-- After the first pieces of a row are written, those are new and all others as they were. -/
theorem slice_writePieces (fits : layout.Fits buffer) (sized : values.length = layout.heads * layout.width)
    (held : row < layout.capacity) (held' : other < layout.capacity) {heads : ℕ} (most : heads ≤ layout.heads) (head : ℕ) :
    slice (layout.writePieces buffer row values heads) (layout.offset head other) layout.width =
      if head < heads ∧ other = row then slice values (head * layout.width) layout.width
      else slice buffer (layout.offset head other) layout.width := by
  induction heads with
  | zero => simp [writePieces]
  | succ heads ih =>
    have size : (slice values (heads * layout.width) layout.width).length = layout.width :=
      length_piece sized (by lia)
    have room : layout.offset heads row + (slice values (heads * layout.width) layout.width).length ≤
        (layout.writePieces buffer row values heads).length := by
      rw [length_writePieces fits sized held (by lia), size]
      exact offset_add_width_le (by lia) held
    rw [writePieces_succ]
    by_cases here : head = heads ∧ other = row
    · obtain ⟨rfl, rfl⟩ := here
      rw [if_pos ⟨by lia, rfl⟩]
      have self := slice_splice_self room
      rwa [size] at self
    · rw [slice_splice_of_apart room, ih (by lia)]
      · have same : (head < heads ∧ other = row) ↔ (head < heads + 1 ∧ other = row) := by lia
        simp only [same]
      · rw [size]
        have apart : layout.offset head other + layout.width ≤ layout.offset heads row ∨
            layout.offset heads row + layout.width ≤ layout.offset head other := offset_apart held' held here
        exact apart

theorem fits_writeRow (fits : layout.Fits buffer) (sized : values.length = layout.heads * layout.width)
    (held : row < layout.capacity) : layout.Fits (layout.writeRow buffer row values) :=
  length_writePieces fits sized held (le_refl _)

/-- Writing a row changes that row and no other. -/
theorem readRow_writeRow (fits : layout.Fits buffer) (sized : values.length = layout.heads * layout.width)
    (held : row < layout.capacity) (held' : other < layout.capacity) :
    layout.readRow (layout.writeRow buffer row values) other =
      if other = row then values else layout.readRow buffer other := by
  have pieces : ∀ head ∈ List.range layout.heads,
      slice (layout.writeRow buffer row values) (layout.offset head other) layout.width =
        if other = row then slice values (head * layout.width) layout.width
        else slice buffer (layout.offset head other) layout.width := by
    intro head member
    rw [List.mem_range] at member
    rw [writeRow, slice_writePieces fits sized held held' (le_refl _)]
    simp only [member, true_and]
  rw [readRow, List.map_congr_left pieces]
  split
  · rw [flatten_slices, ← sized, List.take_length]
  · rfl

theorem length_readRow (fits : layout.Fits buffer) (held : row < layout.capacity) :
    (layout.readRow buffer row).length = layout.heads * layout.width := by
  rw [readRow, length_flatten_of_sizes, List.length_map, List.length_range]
  intro piece member
  obtain ⟨head, less, rfl⟩ := List.mem_map.mp member
  apply length_slice
  rw [fits]
  exact offset_add_width_le (List.mem_range.mp less) held

theorem slice_readRow (fits : layout.Fits buffer) (held : row < layout.capacity) (within : head < layout.heads) :
    slice (layout.readRow buffer row) (head * layout.width) layout.width =
      slice buffer (layout.offset head row) layout.width := by
  refine slice_flatten (fun piece member => ?_) (by rw [List.getElem?_map, List.getElem?_range within]; rfl)
  obtain ⟨other, less, rfl⟩ := List.mem_map.mp member
  apply length_slice
  rw [fits]
  exact offset_add_width_le (List.mem_range.mp less) held

/-- A buffer is determined by its rows. -/
theorem ext_rows {left right : List α} (fits : layout.Fits left) (fits' : layout.Fits right)
    (rows : ∀ row < layout.capacity, layout.readRow left row = layout.readRow right row) : left = right := by
  apply List.ext_getElem?
  intro index
  by_cases inside : index < layout.heads * layout.capacity * layout.width
  · have wide : 0 < layout.width := by
      apply Nat.pos_of_ne_zero
      intro zero
      simp [zero] at inside
    have block : index / layout.width < layout.heads * layout.capacity := Nat.div_lt_of_lt_mul (by rwa [Nat.mul_comm])
    have some : 0 < layout.capacity := by
      apply Nat.pos_of_ne_zero
      intro zero
      simp [zero] at block
    -- the head and the row that the element belongs to
    have within : index / layout.width / layout.capacity < layout.heads :=
      Nat.div_lt_of_lt_mul (by rwa [Nat.mul_comm])
    have held : index / layout.width % layout.capacity < layout.capacity := Nat.mod_lt _ some
    have place : layout.offset (index / layout.width / layout.capacity) (index / layout.width % layout.capacity) +
        index % layout.width = index := by
      rw [offset, Nat.mul_comm (index / layout.width / layout.capacity), Nat.div_add_mod, Nat.mul_comm, Nat.div_add_mod]
    have pieces := congrArg
      (fun row => slice row (index / layout.width / layout.capacity * layout.width) layout.width) (rows _ held)
    simp only [slice_readRow fits held within, slice_readRow fits' held within] at pieces
    have elements := congrArg (fun piece => piece[index % layout.width]?) pieces
    simpa only [getElem?_slice, if_pos (Nat.mod_lt _ wide), place] using elements
  · rw [List.getElem?_eq_none (by rw [fits]; omega), List.getElem?_eq_none (by rw [fits']; omega)]

section Ring

/-- Positions less than a capacity apart have different slots. -/
theorem mod_ne_mod_of_lt {first second capacity : ℕ} (before : first < second) (near : second < first + capacity) :
    first % capacity ≠ second % capacity := by
  intro same
  have divides : capacity ∣ second - first := Nat.dvd_of_mod_eq_zero (Nat.sub_mod_eq_zero_of_mod_eq same.symm)
  have far := Nat.le_of_dvd (by omega) divides
  omega

/-- A slot is taken by one of any `capacity` consecutive positions. -/
theorem exists_mod_eq {slot capacity : ℕ} (held : slot < capacity) (first : ℕ) :
    ∃ position, first ≤ position ∧ position < first + capacity ∧ position % capacity = slot := by
  have rest := Nat.mod_lt first (show 0 < capacity by lia)
  have split := Nat.div_add_mod first capacity
  by_cases here : first % capacity ≤ slot
  · refine ⟨capacity * (first / capacity) + slot, by lia, by lia, ?_⟩
    rw [Nat.mul_add_mod, Nat.mod_eq_of_lt held]
  · refine ⟨capacity * (first / capacity + 1) + slot, ?_, ?_, ?_⟩
    · rw [Nat.mul_succ]
      lia
    · rw [Nat.mul_succ]
      lia
    · rw [Nat.mul_add_mod, Nat.mod_eq_of_lt held]

variable (layout) in
/-- Write rows for consecutive positions. -/
def writeFrom : List α → ℕ → List (List α) → List α
  | buffer, _, [] => buffer
  | buffer, position, values :: rows =>
    writeFrom (layout.writeRow buffer (position % layout.capacity) values) (position + 1) rows

variable (layout) in
/-- Every row has the length of the layout. -/
def Sized (rows : List (List α)) : Prop := ∀ values ∈ rows, values.length = layout.heads * layout.width

variable {rows history : List (List α)} {position slot index first : ℕ}

theorem writeFrom_append (buffer : List α) (position : ℕ) (rows more : List (List α)) :
    layout.writeFrom buffer position (rows ++ more) =
      layout.writeFrom (layout.writeFrom buffer position rows) (position + rows.length) more := by
  induction rows generalizing buffer position with
  | nil => rfl
  | cons values rows ih =>
    rw [List.cons_append, writeFrom, ih, writeFrom, List.length_cons, Nat.add_assoc, Nat.add_comm 1]

theorem fits_writeFrom (room : 0 < layout.capacity) (fits : layout.Fits buffer) (sized : layout.Sized rows)
    (position : ℕ) : layout.Fits (layout.writeFrom buffer position rows) := by
  induction rows generalizing buffer position with
  | nil => exact fits
  | cons values rows ih =>
    refine ih (fits_writeRow fits (sized values List.mem_cons_self) (Nat.mod_lt _ room)) ?_ (position + 1)
    exact fun other member => sized other (List.mem_cons_of_mem _ member)

/-- A slot that no position takes keeps its row. -/
theorem readRow_writeFrom_of_ne (fits : layout.Fits buffer) (sized : layout.Sized rows) (held : slot < layout.capacity)
    (others : ∀ index < rows.length, (position + index) % layout.capacity ≠ slot) :
    layout.readRow (layout.writeFrom buffer position rows) slot = layout.readRow buffer slot := by
  induction rows generalizing buffer position with
  | nil => rfl
  | cons values rows ih =>
    have small : position % layout.capacity < layout.capacity := Nat.mod_lt _ (by lia)
    have wide := sized values List.mem_cons_self
    have apart : slot ≠ position % layout.capacity := fun same => others 0 (by simp) same.symm
    rw [writeFrom, ih (fits_writeRow fits wide small), readRow_writeRow fits wide small held, if_neg apart]
    · exact fun other member => sized other (List.mem_cons_of_mem _ member)
    · intro index less
      have later := others (index + 1) (by simpa using less)
      rwa [show position + 1 + index = position + (index + 1) by lia]

/-- Of at most a capacity of rows each is in its slot. -/
theorem readRow_writeFrom_of_getElem? (room : 0 < layout.capacity) (fits : layout.Fits buffer) (sized : layout.Sized rows)
    (few : rows.length ≤ layout.capacity) (get : rows[index]? = some values) (position : ℕ) :
    layout.readRow (layout.writeFrom buffer position rows) ((position + index) % layout.capacity) = values := by
  induction rows generalizing buffer position index with
  | nil => simp at get
  | cons head rows ih =>
    have small : position % layout.capacity < layout.capacity := Nat.mod_lt _ room
    have wide := sized head List.mem_cons_self
    have rest : layout.Sized rows := fun other member => sized other (List.mem_cons_of_mem _ member)
    rw [List.length_cons] at few
    cases index with
    | zero =>
      cases get
      rw [Nat.add_zero, writeFrom, readRow_writeFrom_of_ne (fits_writeRow fits wide small) rest small,
        readRow_writeRow fits wide small small, if_pos rfl]
      intro later less
      exact (mod_ne_mod_of_lt (by lia) (by lia)).symm
    | succ index =>
      have next := ih (fits_writeRow fits wide small) rest (by lia) (by simpa using get) (position + 1)
      rwa [show position + 1 + index = position + (index + 1) by lia] at next

variable (layout) in
/-- The rows of a history from `first` on are in their slots. -/
def Holds (buffer : List α) (first : ℕ) (history : List (List α)) : Prop :=
  ∀ position values, first ≤ position → history[position]? = some values →
    layout.readRow buffer (position % layout.capacity) = values

/-- Rows that follow a history, less those that will not stay, are written over the oldest. -/
theorem Holds.extend (room : 0 < layout.capacity) (fits : layout.Fits buffer) (holds : layout.Holds buffer first history)
    (sized : layout.Sized rows) {next : ℕ} (later : first ≤ next)
    (near : history.length + rows.length ≤ next + layout.capacity) :
    layout.Holds
      (layout.writeFrom buffer (history.length + (next - history.length)) (rows.drop (next - history.length))) next
      (history ++ rows) := by
  have rest : layout.Sized (rows.drop (next - history.length)) :=
    fun other member => sized other (List.mem_of_mem_drop member)
  intro position values after get
  rcases Nat.lt_or_ge position history.length with old | new
  · rw [List.getElem?_append_left old] at get
    rw [readRow_writeFrom_of_ne fits rest (Nat.mod_lt _ room)]
    · exact holds position values (by lia) get
    · intro index less
      rw [List.length_drop] at less
      exact (mod_ne_mod_of_lt (by lia) (by lia)).symm
  · rw [List.getElem?_append_right new] at get
    have kept : (rows.drop (next - history.length))[position - (history.length + (next - history.length))]? =
        some values := by
      rw [List.getElem?_drop, ← get]
      congr 1
      lia
    have written := readRow_writeFrom_of_getElem? room fits rest (by rw [List.length_drop]; lia) kept
      (history.length + (next - history.length))
    rwa [show history.length + (next - history.length) + (position - (history.length + (next - history.length))) = position
      by lia] at written

/-- Rows written over retained ones: putting back all but the first leaves only the first written. -/
theorem writeFrom_undo (room : 0 < layout.capacity) (fits : layout.Fits buffer) (sized : layout.Sized rows) {count kept : ℕ}
    (few : count ≤ layout.capacity) (most : rows.length ≤ count) (start : ℕ) (short : kept ≤ rows.length) :
    layout.writeFrom (layout.writeFrom buffer start rows) (start + kept)
        (((List.range count).map fun index => layout.readRow buffer ((start + index) % layout.capacity)).drop kept) =
      layout.writeFrom buffer start (rows.take kept) := by
  have saved : layout.Sized (((List.range count).map fun index =>
      layout.readRow buffer ((start + index) % layout.capacity)).drop kept) := by
    intro values member
    obtain ⟨index, -, rfl⟩ := List.mem_map.mp (List.mem_of_mem_drop member)
    exact length_readRow fits (Nat.mod_lt _ room)
  have first : layout.Sized (rows.take kept) := fun values member => sized values (List.mem_of_mem_take member)
  have written := fits_writeFrom room fits sized start
  refine ext_rows (fits_writeFrom room written saved _) (fits_writeFrom room fits first _) fun slot held => ?_
  by_cases touched : ∃ index < count, (start + index) % layout.capacity = slot
  · obtain ⟨index, less, rfl⟩ := touched
    rcases Nat.lt_or_ge index kept with early | late
    · -- a row that stays
      have inside : index < rows.length := by lia
      have get := List.getElem?_eq_getElem inside
      rw [readRow_writeFrom_of_ne written saved held, readRow_writeFrom_of_getElem? room fits sized (by lia) get,
        readRow_writeFrom_of_getElem? room fits first (by rw [List.length_take]; lia)
          (by rw [List.getElem?_take, if_pos early, get])]
      intro later before
      simp only [List.length_drop, List.length_map, List.length_range] at before
      exact (mod_ne_mod_of_lt (by lia) (by lia)).symm
    · -- a row that is put back
      have get : (((List.range count).map fun index =>
          layout.readRow buffer ((start + index) % layout.capacity)).drop kept)[index - kept]? =
            some (layout.readRow buffer ((start + index) % layout.capacity)) := by
        rw [List.getElem?_drop, show kept + (index - kept) = index by lia, List.getElem?_map, List.getElem?_range less,
          Option.map_some]
      have back := readRow_writeFrom_of_getElem? room written saved
        (by simp only [List.length_drop, List.length_map, List.length_range]; lia) get (start + kept)
      rw [show start + kept + (index - kept) = start + index by lia] at back
      rw [back, readRow_writeFrom_of_ne fits first held]
      intro other before
      rw [List.length_take] at before
      exact mod_ne_mod_of_lt (by lia) (by lia)
  · have untouched : ∀ index < count, (start + index) % layout.capacity ≠ slot :=
      fun index less same => touched ⟨index, less, same⟩
    rw [readRow_writeFrom_of_ne written saved held, readRow_writeFrom_of_ne fits sized held,
      readRow_writeFrom_of_ne fits first held]
    · intro index less
      rw [List.length_take] at less
      exact untouched index (by lia)
    · exact fun index less => untouched index (by lia)
    · intro index less
      simp only [List.length_drop, List.length_map, List.length_range] at less
      rw [Nat.add_assoc]
      exact untouched (kept + index) (by lia)

end Ring

end RowLayout

end Muser
