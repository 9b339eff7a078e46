import Muser.Engine.Plane

/-! # Planes built row by row

A plane that has received a history holds its last rows, each in the slot its logical position leaves
modulo the capacity. Single appends, batches, resets and restores all keep that form, so the order in
which attention scans the slots does not depend on how a plane came about.
-/

namespace Muser.Engine

/-- The storage order of a plane: head by head, or rows one after another. -/
def rowLayout (capacity kvDim headDim : ℕ) (headMajor : Bool) : RowLayout :=
  if headMajor then ⟨kvDim / headDim, headDim, capacity⟩ else ⟨1, kvDim, capacity⟩

section Layout

variable {capacity kvDim headDim : ℕ} {headMajor : Bool}

@[simp] theorem rowLayout_capacity : (rowLayout capacity kvDim headDim headMajor).capacity = capacity := by
  cases headMajor <;> rfl

theorem rowLayout_row (whole : headDim ∣ kvDim) :
    (rowLayout capacity kvDim headDim headMajor).heads * (rowLayout capacity kvDim headDim headMajor).width = kvDim := by
  cases headMajor with
  | false => exact Nat.one_mul kvDim
  | true => exact Nat.div_mul_cancel whole

theorem rowLayout_fits_iff (whole : headDim ∣ kvDim) {bits : List Half} :
    (rowLayout capacity kvDim headDim headMajor).Fits bits ↔ bits.length = capacity * kvDim := by
  have total : (rowLayout capacity kvDim headDim headMajor).heads * capacity *
      (rowLayout capacity kvDim headDim headMajor).width = capacity * kvDim := by
    calc _ = capacity * ((rowLayout capacity kvDim headDim headMajor).heads *
          (rowLayout capacity kvDim headDim headMajor).width) := by ring
      _ = capacity * kvDim := by rw [rowLayout_row whole]
  rw [RowLayout.Fits, rowLayout_capacity, total]

theorem readSlot_eq (bits : List Half) (physical : ℕ) :
    readSlot bits capacity kvDim headDim headMajor physical =
      (rowLayout capacity kvDim headDim headMajor).readRow bits physical := by
  cases headMajor with
  | true => rfl
  | false => simp [readSlot, rowLayout, RowLayout.readRow, RowLayout.offset]

theorem writeSlot_eq (bits : List Half) (physical : ℕ) {row : List Half} (wide : row.length = kvDim) :
    writeSlot bits capacity kvDim headDim headMajor physical row =
      (rowLayout capacity kvDim headDim headMajor).writeRow bits physical row := by
  cases headMajor with
  | true => rfl
  | false =>
    have whole : slice row 0 kvDim = row := by
      rw [slice, List.drop_zero, ← wide, List.take_length]
    simp [writeSlot, rowLayout, RowLayout.writeRow, RowLayout.writePieces, RowLayout.offset, whole]

end Layout

structure KvRow.Wide (row : KvRow) (kvDim : ℕ) : Prop where
  key : row.key.length = kvDim
  value : row.value.length = kvDim

/-- The slot of a logical position, from an origin that is in its own slot. -/
theorem slot_eq {origin capacity position : ℕ} (after : origin ≤ position) :
    (origin % capacity + (position - origin)) % capacity = position % capacity := by
  rw [Nat.mod_add_mod, Nat.add_sub_cancel' after]

namespace MetalKvPlane

def layout (plane : MetalKvPlane) (kvDim headDim : ℕ) : RowLayout :=
  rowLayout plane.capacity kvDim headDim plane.headMajor

/-- A plane that received `history`, row by row, since it was empty. -/
structure Built (plane : MetalKvPlane) (kvDim headDim : ℕ) (history : List KvRow) : Prop where
  capacity_pos : 0 < plane.capacity
  whole : headDim ∣ kvDim
  wide : ∀ row ∈ history, row.Wide kvDim
  fits_key : plane.key.length = plane.capacity * kvDim
  fits_value : plane.value.length = plane.capacity * kvDim
  len_eq : plane.len = min history.length plane.capacity
  originLogical_eq : plane.originLogical = history.length - plane.len
  originPhysical_eq : plane.originPhysical = plane.originLogical % plane.capacity
  keys : (plane.layout kvDim headDim).Holds plane.key plane.originLogical (history.map KvRow.key)
  values : (plane.layout kvDim headDim).Holds plane.value plane.originLogical (history.map KvRow.value)

variable {plane next : MetalKvPlane} {kvDim headDim layer : ℕ} {history rows : List KvRow} {row : KvRow}

namespace Built

theorem sized_keys (whole : headDim ∣ kvDim) (wide : ∀ row ∈ rows, KvRow.Wide row kvDim) :
    (plane.layout kvDim headDim).Sized (rows.map KvRow.key) := by
  intro values member
  obtain ⟨row, among, rfl⟩ := List.mem_map.mp member
  rw [layout, rowLayout_row whole]
  exact (wide row among).key

theorem sized_values (whole : headDim ∣ kvDim) (wide : ∀ row ∈ rows, KvRow.Wide row kvDim) :
    (plane.layout kvDim headDim).Sized (rows.map KvRow.value) := by
  intro values member
  obtain ⟨row, among, rfl⟩ := List.mem_map.mp member
  rw [layout, rowLayout_row whole]
  exact (wide row among).value

theorem expected_eq (built : plane.Built kvDim headDim history) : plane.originLogical + plane.len = history.length := by
  have len := built.len_eq
  have origin := built.originLogical_eq
  lia

theorem originLogical_eq_sub (built : plane.Built kvDim headDim history) :
    plane.originLogical = history.length - plane.capacity := by
  have len := built.len_eq
  have origin := built.originLogical_eq
  omega

end Built

/-- The plane whose metadata has advanced to a history of `count` rows. -/
def advance (plane : MetalKvPlane) (count : ℕ) : MetalKvPlane :=
  { plane with
    len := min count plane.capacity
    originLogical := count - plane.capacity
    originPhysical := (count - plane.capacity) % plane.capacity }

theorem Built.advance_length (built : plane.Built kvDim headDim history) : plane.advance history.length = plane := by
  have origin := built.originLogical_eq_sub
  rw [advance, ← built.len_eq, ← origin, ← built.originPhysical_eq]

/-- A single append advances by one and answers the slot of the position. -/
theorem Built.append_eq (built : plane.Built kvDim headDim history) (layer : ℕ) :
    plane.append layer history.length = .ok (history.length % plane.capacity, plane.advance (history.length + 1)) := by
  have room := built.capacity_pos
  have len := built.len_eq
  have origin := built.originLogical_eq
  rw [append, built.expected_eq, if_neg (by simp)]
  split
  · next less =>
    have start : plane.originLogical = 0 := by lia
    have physical : plane.originPhysical = 0 := by rw [built.originPhysical_eq, start, Nat.zero_mod]
    have same : history.length - plane.capacity = 0 ∧ history.length + 1 - plane.capacity = 0 := by lia
    have total : plane.len = history.length ∧ min (history.length + 1) plane.capacity = plane.len + 1 := by lia
    rw [advance, same.2, total.2, Nat.zero_mod, physical, Nat.zero_add, total.1, start]
  · next full =>
    have total : plane.len = plane.capacity ∧ min (history.length + 1) plane.capacity = plane.len := by lia
    have start : history.length + 1 - plane.capacity = plane.originLogical + 1 := by lia
    have slot : history.length % plane.capacity = plane.originPhysical := by
      rw [built.originPhysical_eq, show history.length = plane.originLogical + plane.capacity by lia, Nat.add_mod_right]
    rw [advance, start, total.2, slot, built.originPhysical_eq, Nat.mod_add_mod]

/-- Store rows for consecutive positions. -/
def store (plane : MetalKvPlane) (kvDim headDim position : ℕ) (rows : List KvRow) : MetalKvPlane :=
  { plane with
    key := (plane.layout kvDim headDim).writeFrom plane.key position (rows.map KvRow.key)
    value := (plane.layout kvDim headDim).writeFrom plane.value position (rows.map KvRow.value) }

theorem store_cons (position : ℕ) (wide : row.Wide kvDim) (rows : List KvRow) :
    plane.store kvDim headDim position (row :: rows) =
      (plane.writeRow kvDim headDim (position % plane.capacity) row).store kvDim headDim (position + 1) rows := by
  rw [store, store, writeRow, writeSlot_eq _ _ wide.key, writeSlot_eq _ _ wide.value]
  simp only [layout, List.map_cons, RowLayout.writeFrom, rowLayout_capacity]

/-- The kernel's slots are the slots of the ring. -/
theorem storeRows_eq (aligned : plane.originPhysical = plane.originLogical % plane.capacity) {position : ℕ}
    (after : plane.originLogical ≤ position) (wide : ∀ row ∈ rows, KvRow.Wide row kvDim) :
    plane.storeRows kvDim headDim position rows = plane.store kvDim headDim position rows := by
  induction rows generalizing plane position with
  | nil => rfl
  | cons row rows ih =>
    rw [storeRows, aligned, slot_eq after, store_cons position (wide row List.mem_cons_self)]
    apply ih
    · exact aligned
    · exact Nat.le_succ_of_le after
    · exact fun row member => wide row (List.mem_cons_of_mem _ member)

/-- Storing what stays of the rows that follow a history. -/
theorem Built.extend (built : plane.Built kvDim headDim history) (wide : ∀ row ∈ rows, KvRow.Wide row kvDim) :
    ((plane.advance (history.length + rows.length)).store kvDim headDim
      (history.length + (history.length + rows.length - plane.capacity - history.length))
      (rows.drop (history.length + rows.length - plane.capacity - history.length))).Built kvDim headDim
        (history ++ rows) := by
  have room := built.capacity_pos
  have origin := built.originLogical_eq_sub
  have layouts : (plane.layout kvDim headDim).capacity = plane.capacity := rowLayout_capacity
  have later : plane.originLogical ≤ history.length + rows.length - plane.capacity := by omega
  have near : (history.map KvRow.key).length + (rows.map KvRow.key).length ≤
      history.length + rows.length - plane.capacity + (plane.layout kvDim headDim).capacity := by
    rw [layouts, List.length_map, List.length_map]
    omega
  have fits_key : (plane.layout kvDim headDim).Fits plane.key := (rowLayout_fits_iff built.whole).mpr built.fits_key
  have fits_value : (plane.layout kvDim headDim).Fits plane.value :=
    (rowLayout_fits_iff built.whole).mpr built.fits_value
  have sized_key : (plane.layout kvDim headDim).Sized (rows.map KvRow.key) := Built.sized_keys built.whole wide
  have sized_value : (plane.layout kvDim headDim).Sized (rows.map KvRow.value) := Built.sized_values built.whole wide
  have keys := RowLayout.Holds.extend (by rwa [layouts]) fits_key built.keys sized_key later near
  have values := RowLayout.Holds.extend (by rwa [layouts]) fits_value built.values sized_value later
    (by simpa only [List.length_map] using near)
  rw [List.length_map, ← List.map_drop, ← List.map_append] at keys values
  have total : (history ++ rows).length = history.length + rows.length := List.length_append
  refine
    { capacity_pos := room
      whole := built.whole
      wide := ?_
      fits_key := ?_
      fits_value := ?_
      len_eq := by rw [total]; rfl
      originLogical_eq := ?_
      originPhysical_eq := rfl
      keys := keys
      values := values }
  · intro row member
    rcases List.mem_append.mp member with old | new
    · exact built.wide row old
    · exact wide row new
  · refine (rowLayout_fits_iff built.whole).mp (RowLayout.fits_writeFrom (by rwa [layouts]) fits_key ?_ _)
    rw [List.map_drop]
    exact fun values member => sized_key values (List.mem_of_mem_drop member)
  · refine (rowLayout_fits_iff built.whole).mp (RowLayout.fits_writeFrom (by rwa [layouts]) fits_value ?_ _)
    rw [List.map_drop]
    exact fun values member => sized_value values (List.mem_of_mem_drop member)
  · rw [total]
    change history.length + rows.length - plane.capacity =
      history.length + rows.length - min (history.length + rows.length) plane.capacity
    omega

/-- One row more: it goes to the slot of its position. -/
theorem Built.appendRow (built : plane.Built kvDim headDim history) (layer : ℕ) (wide : row.Wide kvDim) :
    plane.appendRow kvDim headDim layer history.length row =
        .ok ((plane.advance (history.length + 1)).store kvDim headDim history.length [row]) ∧
      ((plane.advance (history.length + 1)).store kvDim headDim history.length [row]).Built kvDim headDim
        (history ++ [row]) := by
  have room := built.capacity_pos
  constructor
  · rw [MetalKvPlane.appendRow, built.append_eq layer, store_cons history.length wide]
    rfl
  · have extended := built.extend (show ∀ other ∈ [row], KvRow.Wide other kvDim by simpa using wide)
    rwa [List.length_singleton, show history.length + 1 - plane.capacity - history.length = 0 by omega, List.drop_zero,
      Nat.add_zero] at extended

/-- A batch advances by its length; the rows that the window passes at once are not reported. -/
theorem Built.appendBatch_eq (built : plane.Built kvDim headDim history) (layer : ℕ) {count : ℕ}
    (small : plane.len + count < usizeBound) :
    plane.appendBatch layer history.length count =
      .ok ((history.length + count - plane.capacity - history.length,
        count - (history.length + count - plane.capacity - history.length)), plane.advance (history.length + count)) := by
  have room := built.capacity_pos
  have len := built.len_eq
  have origin := built.originLogical_eq
  have advanced : (if plane.len + count ≤ plane.capacity then { plane with len := plane.len + count }
      else
        { plane with
          originLogical := plane.originLogical + (plane.len + count - plane.capacity)
          originPhysical := (plane.originPhysical + (plane.len + count - plane.capacity)) % plane.capacity
          len := plane.capacity }) = plane.advance (history.length + count) := by
    split
    · next fits =>
      have start : plane.originLogical = history.length + count - plane.capacity := by lia
      have total : plane.len + count = min (history.length + count) plane.capacity := by lia
      rw [advance, ← start, ← total, ← built.originPhysical_eq]
    · next wraps =>
      have start : plane.originLogical + (plane.len + count - plane.capacity) = history.length + count - plane.capacity := by
        lia
      have total : min (history.length + count) plane.capacity = plane.capacity := by lia
      rw [advance, ← start, total, built.originPhysical_eq, Nat.mod_add_mod]
  rw [appendBatch, built.expected_eq, if_neg (by simp), if_neg (by lia)]
  dsimp only
  rw [advanced]
  rfl

/-- A batch stores its last rows, each in the slot of its position. -/
theorem Built.appendRows (built : plane.Built kvDim headDim history) (layer : ℕ)
    (wide : ∀ row ∈ rows, KvRow.Wide row kvDim) (small : plane.len + rows.length < usizeBound) :
    plane.appendRows kvDim headDim layer history.length rows =
      .ok ((plane.advance (history.length + rows.length)).store kvDim headDim
        (history.length + (history.length + rows.length - plane.capacity - history.length))
        (rows.drop (history.length + rows.length - plane.capacity - history.length))) := by
  rw [MetalKvPlane.appendRows, built.appendBatch_eq layer small]
  simp only [bind, Except.bind]
  have kept : ∀ skipped, slice rows skipped (rows.length - skipped) = rows.drop skipped := by
    intro skipped
    rw [slice, ← List.length_drop, List.take_length]
  rw [kept, storeRows_eq rfl]
  · change history.length + rows.length - plane.capacity ≤ _
    omega
  · exact fun row member => wide row (List.mem_of_mem_drop member)

/-- Rows appended one at a time. -/
def appendEach (kvDim headDim layer : ℕ) : MetalKvPlane → ℕ → List KvRow → Except MetalModelError MetalKvPlane
  | plane, _, [] => .ok plane
  | plane, position, row :: rows => do
    let next ← plane.appendRow kvDim headDim layer position row
    appendEach kvDim headDim layer next (position + 1) rows

theorem advance_store_advance (plane : MetalKvPlane) (kvDim headDim first second position : ℕ) (rows : List KvRow) :
    ((plane.advance first).store kvDim headDim position rows).advance second =
      (plane.advance second).store kvDim headDim position rows := rfl

theorem Built.appendEach (built : plane.Built kvDim headDim history) (layer : ℕ)
    (wide : ∀ row ∈ rows, KvRow.Wide row kvDim) :
    plane.appendEach kvDim headDim layer history.length rows =
        .ok ((plane.advance (history.length + rows.length)).store kvDim headDim history.length rows) ∧
      ((plane.advance (history.length + rows.length)).store kvDim headDim history.length rows).Built kvDim headDim
        (history ++ rows) := by
  induction rows generalizing plane history with
  | nil =>
    have same : (plane.advance history.length).store kvDim headDim history.length [] = plane := by
      rw [built.advance_length]
      rfl
    rw [List.length_nil, Nat.add_zero, List.append_nil, same]
    exact ⟨rfl, built⟩
  | cons row rows ih =>
    obtain ⟨first, next⟩ := built.appendRow layer (wide row List.mem_cons_self)
    obtain ⟨rest, last⟩ := ih next fun row member => wide row (List.mem_cons_of_mem _ member)
    rw [List.length_append, List.length_singleton] at rest last
    have same : (((plane.advance (history.length + 1)).store kvDim headDim history.length [row]).advance
        (history.length + 1 + rows.length)).store kvDim headDim (history.length + 1) rows =
        (plane.advance (history.length + (row :: rows).length)).store kvDim headDim history.length (row :: rows) := by
      rw [advance_store_advance, List.length_cons, Nat.add_assoc, Nat.add_comm 1 rows.length]
      rfl
    rw [same] at rest last
    rw [List.append_assoc, List.singleton_append] at last
    refine ⟨?_, last⟩
    rw [MetalKvPlane.appendEach, first]
    exact rest

/-- Two planes over one history with the same storage order differ at most in slots that hold nothing. -/
theorem Built.eq_of_full (built : plane.Built kvDim headDim history) (built' : next.Built kvDim headDim history)
    (capacity : next.capacity = plane.capacity) (headMajor : next.headMajor = plane.headMajor)
    (full : plane.capacity ≤ history.length) : next = plane := by
  have layouts : next.layout kvDim headDim = plane.layout kvDim headDim := by rw [layout, layout, capacity, headMajor]
  have len : next.len = plane.len := by rw [built.len_eq, built'.len_eq, capacity]
  have origin : next.originLogical = plane.originLogical := by rw [built.originLogical_eq, built'.originLogical_eq, len]
  have physical : next.originPhysical = plane.originPhysical := by
    rw [built.originPhysical_eq, built'.originPhysical_eq, origin, capacity]
  have start := built.originLogical_eq_sub
  -- every slot holds a row of the history
  have same : ∀ {left right : List Half} {rows : List (List Half)}, rows.length = history.length →
      (plane.layout kvDim headDim).Fits left → (plane.layout kvDim headDim).Fits right →
      (plane.layout kvDim headDim).Holds left plane.originLogical rows →
      (plane.layout kvDim headDim).Holds right plane.originLogical rows → left = right := by
    intro left right rows length fits fits' holds holds'
    refine RowLayout.ext_rows fits fits' fun slot held => ?_
    obtain ⟨position, after, before, rfl⟩ := RowLayout.exists_mod_eq held plane.originLogical
    rw [layout, rowLayout_capacity] at before
    have within : position < rows.length := by omega
    rw [holds position rows[position] after (List.getElem?_eq_getElem within),
      holds' position rows[position] after (List.getElem?_eq_getElem within)]
  have keys := built'.keys
  have values := built'.values
  rw [layouts, origin] at keys values
  have fits_key := built'.fits_key
  have fits_value := built'.fits_value
  rw [capacity] at fits_key fits_value
  have key : next.key = plane.key := same (List.length_map _) ((rowLayout_fits_iff built.whole).mpr fits_key)
    ((rowLayout_fits_iff built.whole).mpr built.fits_key) keys built.keys
  have value : next.value = plane.value := same (List.length_map _) ((rowLayout_fits_iff built.whole).mpr fits_value)
    ((rowLayout_fits_iff built.whole).mpr built.fits_value) values built.values
  cases next
  cases plane
  simp only at key value capacity headMajor len origin physical
  subst key value capacity headMajor len origin physical
  rfl

/-- A batch leaves the very plane that its rows leave one at a time, also past the capacity. -/
theorem Built.appendRows_eq_appendEach (built : plane.Built kvDim headDim history) (layer : ℕ)
    (wide : ∀ row ∈ rows, KvRow.Wide row kvDim) (small : plane.len + rows.length < usizeBound) :
    plane.appendRows kvDim headDim layer history.length rows =
      plane.appendEach kvDim headDim layer history.length rows := by
  obtain ⟨each, last⟩ := built.appendEach layer wide
  rw [built.appendRows layer wide small, each]
  congr 1
  rcases Nat.le_total rows.length plane.capacity with short | long
  · rw [show history.length + rows.length - plane.capacity - history.length = 0 by lia, Nat.add_zero, List.drop_zero]
  · refine last.eq_of_full (built.extend wide) rfl rfl ?_
    rw [List.length_append]
    change plane.capacity ≤ _
    lia

/-- The held slots, read in order, are the last rows of the history. -/
theorem heldSlots_map {bits : List Half} {rows : List (List Half)}
    (aligned : plane.originPhysical = plane.originLogical % plane.capacity)
    (total : plane.originLogical + plane.len = rows.length)
    (holds : (plane.layout kvDim headDim).Holds bits plane.originLogical rows) :
    (plane.heldSlots.map fun physical => readSlot bits plane.capacity kvDim headDim plane.headMajor physical) =
      rows.drop plane.originLogical := by
  apply List.ext_getElem?
  intro index
  rw [heldSlots, List.map_map, List.getElem?_map, List.getElem?_drop]
  by_cases within : index < plane.len
  · have inside : plane.originLogical + index < rows.length := by lia
    have slot : (plane.originPhysical + index) % plane.capacity = (plane.originLogical + index) % plane.capacity := by
      rw [aligned, Nat.mod_add_mod]
    have held := holds (plane.originLogical + index) _ (Nat.le_add_right ..) (List.getElem?_eq_getElem inside)
    rw [layout, rowLayout_capacity, ← readSlot_eq] at held
    rw [List.getElem?_range within, List.getElem?_eq_getElem inside, Option.map_some, Function.comp_apply, slot, held]
  · rw [List.getElem?_eq_none (by rw [List.length_range]; lia), List.getElem?_eq_none (by lia), Option.map_none]

/-- A snapshot is the last rows in logical order. -/
theorem Built.snapshot_eq (built : plane.Built kvDim headDim history) :
    plane.snapshot kvDim headDim =
      { originLogical := plane.originLogical
        len := plane.len
        capacity := plane.capacity
        keyLogical := ((history.drop (history.length - plane.len)).map KvRow.key).flatten
        valueLogical := ((history.drop (history.length - plane.len)).map KvRow.value).flatten
        headMajor := plane.headMajor } := by
  have total := built.expected_eq
  rw [snapshot, heldSlots_map built.originPhysical_eq (by rw [List.length_map, total]) built.keys,
    heldSlots_map built.originPhysical_eq (by rw [List.length_map, total]) built.values, ← List.map_drop, ← List.map_drop,
    ← built.originLogical_eq]

section Detached

variable {capacity rotation : ℕ} {logical : List (List Half)}

/-- Head by head, the rows are written into their slots one after another. -/
theorem detachedBits_headMajor (wide : ∀ values ∈ logical, values.length = kvDim) (rotation : ℕ) :
    detachedBits logical.flatten logical.length capacity kvDim headDim true rotation =
      (rowLayout capacity kvDim headDim true).writeFrom (List.replicate (capacity * kvDim) 0) rotation logical := by
  have partly : ∀ count ≤ logical.length,
      (List.range count).foldl
        (fun bits logicalOffset => writeSlot bits capacity kvDim headDim true ((rotation + logicalOffset) % capacity)
          (slice logical.flatten (logicalOffset * kvDim) kvDim)) (List.replicate (capacity * kvDim) 0) =
      (rowLayout capacity kvDim headDim true).writeFrom (List.replicate (capacity * kvDim) 0) rotation
        (logical.take count) := by
    intro count most
    induction count with
    | zero => rfl
    | succ count ih =>
      have inside : count < logical.length := most
      have row := slice_flatten wide (List.getElem?_eq_getElem inside)
      rw [List.range_succ, List.foldl_append, ih (by omega), List.foldl_cons, List.foldl_nil, row,
        writeSlot_eq _ _ (wide _ (List.getElem_mem inside)), List.take_succ_eq_append_getElem inside,
        RowLayout.writeFrom_append, List.length_take_of_le (by omega)]
      simp only [RowLayout.writeFrom, rowLayout_capacity]
  rw [detachedBits, if_pos rfl, partly _ (le_refl _), List.take_length]

/-- Row after row, the copy runs to the end of the storage and wraps to its start. -/
theorem detachedBits_tokenMajor (headDim : ℕ) {bits : List Half} {len : ℕ} (sized : bits.length = len * kvDim)
    (few : len ≤ capacity)
    (small : rotation < capacity) :
    (detachedBits bits len capacity kvDim headDim false rotation).length = capacity * kvDim ∧
      ∀ index < len, slice (detachedBits bits len capacity kvDim headDim false rotation)
        ((rotation + index) % capacity * kvDim) kvDim = slice bits (index * kvDim) kvDim := by
  have zeros : (List.replicate (capacity * kvDim) (0 : Half)).length = capacity * kvDim := List.length_replicate
  have scaled : ∀ {left right : ℕ}, left ≤ right → left * kvDim ≤ right * kvDim := Nat.mul_le_mul_right kvDim
  obtain ⟨first, firstEq⟩ : ∃ first, first = min len (capacity - rotation) := ⟨_, rfl⟩
  have front : (bits.take (first * kvDim)).length = first * kvDim := by
    rw [List.length_take, sized]
    exact min_eq_left (scaled (by lia))
  have frontFits : rotation * kvDim + (bits.take (first * kvDim)).length ≤
      (List.replicate (capacity * kvDim) (0 : Half)).length := by
    rw [front, zeros, ← Nat.add_mul]
    exact scaled (by lia)
  have frontLength := length_splice frontFits
  rw [detachedBits, if_neg (by simp), ← firstEq]
  dsimp only
  -- a row of the first part
  have frontRow : ∀ index < first, slice (splice (List.replicate (capacity * kvDim) 0) (rotation * kvDim)
      (bits.take (first * kvDim))) ((rotation + index) % capacity * kvDim) kvDim = slice bits (index * kvDim) kvDim := by
    intro index less
    have inside : index * kvDim + kvDim ≤ first * kvDim := by
      rw [← Nat.succ_mul]
      exact scaled less
    rw [Nat.mod_eq_of_lt (by lia), Nat.add_mul, slice_splice_inside frontFits (Nat.le_add_right ..)]
    · rw [Nat.add_sub_cancel_left, slice, slice, List.drop_take, List.take_take, min_eq_left (by lia)]
    · rw [front]
      lia
  split
  · next wraps =>
    have back : (bits.drop (first * kvDim)).length = (len - first) * kvDim := by
      rw [List.length_drop, sized, Nat.sub_mul]
    have backFits : 0 + (bits.drop (first * kvDim)).length ≤
        (splice (List.replicate (capacity * kvDim) 0) (rotation * kvDim) (bits.take (first * kvDim))).length := by
      rw [back, frontLength, zeros, Nat.zero_add]
      exact scaled (by lia)
    refine ⟨by rw [length_splice backFits, frontLength, zeros], fun index less => ?_⟩
    by_cases early : index < first
    · rw [slice_splice_of_apart backFits, frontRow index early]
      right
      rw [back, Nat.zero_add, Nat.mod_eq_of_lt (by lia)]
      exact scaled (by lia)
    · have slot : (rotation + index) % capacity = index - first := by
        rw [show rotation + index = index - first + capacity by lia, Nat.add_mod_right, Nat.mod_eq_of_lt (by lia)]
      have end' : (index - first) * kvDim + kvDim ≤ (len - first) * kvDim := by
        rw [← Nat.succ_mul]
        exact scaled (by lia)
      have start : first * kvDim + (index - first) * kvDim = index * kvDim := by
        rw [← Nat.add_mul, show first + (index - first) = index by lia]
      rw [slot, slice_splice_inside backFits (Nat.zero_le _)]
      · rw [Nat.sub_zero, slice, slice, List.drop_drop, start]
      · rw [back, Nat.zero_add]
        exact end'
  · next whole =>
    refine ⟨by rw [frontLength, zeros], fun index less => frontRow index (by lia)⟩

/-- In either order, a detached buffer has every row in the slot that follows from the rotation. -/
theorem detachedBits_spec (whole : headDim ∣ kvDim) (wide : ∀ values ∈ logical, values.length = kvDim)
    (few : logical.length ≤ capacity) (small : rotation < capacity) (headMajor : Bool) :
    (detachedBits logical.flatten logical.length capacity kvDim headDim headMajor rotation).length = capacity * kvDim ∧
      ∀ index values, logical[index]? = some values →
        (rowLayout capacity kvDim headDim headMajor).readRow
          (detachedBits logical.flatten logical.length capacity kvDim headDim headMajor rotation)
          ((rotation + index) % capacity) = values := by
  cases headMajor with
  | true =>
    have fits : (rowLayout capacity kvDim headDim true).Fits (List.replicate (capacity * kvDim) (0 : Half)) :=
      (rowLayout_fits_iff whole).mpr List.length_replicate
    have sized : (rowLayout capacity kvDim headDim true).Sized logical := by
      intro values member
      rw [rowLayout_row whole]
      exact wide values member
    have room : 0 < (rowLayout capacity kvDim headDim true).capacity := by
      rw [rowLayout_capacity]
      omega
    rw [detachedBits_headMajor wide rotation]
    refine ⟨(rowLayout_fits_iff whole).mp (RowLayout.fits_writeFrom room fits sized _), fun index values get => ?_⟩
    have written := RowLayout.readRow_writeFrom_of_getElem? room fits sized (by rwa [rowLayout_capacity]) get rotation
    rwa [rowLayout_capacity] at written
  | false =>
    obtain ⟨length, rows⟩ := detachedBits_tokenMajor headDim (length_flatten_of_sizes wide) few small
    refine ⟨length, fun index values get => ?_⟩
    have inside : index < logical.length := (List.getElem?_eq_some_iff.mp get).1
    rw [← readSlot_eq, readSlot, if_neg (by simp), rows index inside, slice_flatten wide get]

end Detached

/-- Every held row is in the slot of its position. -/
theorem Built.readRow_eq (built : plane.Built kvDim headDim history) {position : ℕ} (held : plane.originLogical ≤ position)
    (get : history[position]? = some row) : plane.readRow kvDim headDim (position % plane.capacity) = row := by
  have key := built.keys position row.key held (by rw [List.getElem?_map, get, Option.map_some])
  have value := built.values position row.value held (by rw [List.getElem?_map, get, Option.map_some])
  rw [layout, rowLayout_capacity, ← readSlot_eq] at key value
  rw [readRow, key, value]

/-- Restoring a snapshot gives a plane over the same history. -/
theorem Built.detachedFrom (built : plane.Built kvDim headDim history) (small : plane.len * kvDim < usizeBound) :
    ∃ restored, detachedFrom (plane.snapshot kvDim headDim) kvDim headDim = .ok restored ∧
      restored.Built kvDim headDim history ∧ restored.capacity = plane.capacity ∧
      restored.headMajor = plane.headMajor := by
  have room := built.capacity_pos
  have len := built.len_eq
  have origin := built.originLogical_eq
  have count : (history.drop (history.length - plane.len)).length = plane.len := by
    rw [List.length_drop]
    lia
  have rotation : plane.originLogical % plane.capacity < plane.capacity := Nat.mod_lt _ room
  -- one kind of row at a time
  have one : ∀ part : KvRow → List Half, (∀ row ∈ history, (part row).length = kvDim) →
      ((history.drop (history.length - plane.len)).map part).flatten.length = plane.len * kvDim ∧
      (detachedBits ((history.drop (history.length - plane.len)).map part).flatten plane.len plane.capacity kvDim headDim
        plane.headMajor (plane.originLogical % plane.capacity)).length = plane.capacity * kvDim ∧
      (plane.layout kvDim headDim).Holds
        (detachedBits ((history.drop (history.length - plane.len)).map part).flatten plane.len plane.capacity kvDim headDim
          plane.headMajor (plane.originLogical % plane.capacity)) plane.originLogical (history.map part) := by
    intro part wide
    have sizes : ∀ values ∈ (history.drop (history.length - plane.len)).map part, values.length = kvDim := by
      intro values member
      obtain ⟨row, among, rfl⟩ := List.mem_map.mp member
      exact wide row (List.mem_of_mem_drop among)
    have total : ((history.drop (history.length - plane.len)).map part).length = plane.len := by
      rw [List.length_map, count]
    obtain ⟨length, rows⟩ := detachedBits_spec built.whole sizes (by lia) rotation plane.headMajor
    rw [total] at length rows
    refine ⟨by rw [length_flatten_of_sizes sizes, total], length, fun position values after get => ?_⟩
    have slot : (plane.originLogical % plane.capacity + (position - plane.originLogical)) % plane.capacity =
        position % plane.capacity := slot_eq after
    have row := rows (position - plane.originLogical) values (by
      rw [← get, List.map_drop, List.getElem?_drop]
      congr 1
      lia)
    rw [slot] at row
    rw [layout, rowLayout_capacity]
    exact row
  obtain ⟨keySize, keyLength, keys⟩ := one KvRow.key fun row member => (built.wide row member).key
  obtain ⟨valueSize, valueLength, values⟩ := one KvRow.value fun row member => (built.wide row member).value
  have valid : ¬(plane.capacity = 0 ∨ plane.capacity < plane.len ∨ plane.len * kvDim ≠ plane.len * kvDim ∨
      plane.len * kvDim ≠ plane.len * kvDim) := by
    simp only [ne_eq, not_true_eq_false, or_false, not_or]
    lia
  rw [built.snapshot_eq, MetalKvPlane.detachedFrom]
  simp only [checkedMul, if_pos small, keySize, valueSize, if_neg valid]
  refine ⟨_, rfl, ?_, rfl, rfl⟩
  exact
    { capacity_pos := room
      whole := built.whole
      wide := built.wide
      fits_key := keyLength
      fits_value := valueLength
      len_eq := len
      originLogical_eq := origin
      originPhysical_eq := rfl
      keys := keys
      values := values }

theorem Built.reset (built : plane.Built kvDim headDim history) : plane.reset.Built kvDim headDim [] :=
  { capacity_pos := built.capacity_pos
    whole := built.whole
    wide := by simp
    fits_key := built.fits_key
    fits_value := built.fits_value
    len_eq := (Nat.zero_min _).symm
    originLogical_eq := rfl
    originPhysical_eq := (Nat.zero_mod _).symm
    keys := fun _ _ _ get => by simp at get
    values := fun _ _ _ get => by simp at get }

end MetalKvPlane

end Muser.Engine
