import Muser.Engine.Install
import Muser.Lib.RowBlocks
import Muser.Lib.Tiling

/-! # Filling a generation

A plane of a new generation has the metadata of the whole prompt from the start; its keys and values
are filled up to a cursor each. A tile at the cursor moves the cursor on, and when both cursors are at
the end the plane is one that received the prompt row by row.
-/

namespace Muser.Engine

section Bytes

def halfBytes (half : Half) : Bytes := [UInt8.ofNat (half.toNat % 256), UInt8.ofNat (half.toNat / 256)]

/-- Rows as they travel: one after another, each word little-endian. -/
def tileBytes (rows : List (List Half)) : Bytes := rows.flatten.flatMap halfBytes

theorem halvesOfBytes_flatMap (halves : List Half) : halvesOfBytes (halves.flatMap halfBytes) = halves := by
  induction halves with
  | nil => rfl
  | cons half rest ih =>
    have small : half.toNat < 65536 := half.toNat_lt
    have word : half.toNat % 256 + 256 * (half.toNat / 256) = half.toNat := Nat.mod_add_div _ _
    have low : (UInt8.ofNat (half.toNat % 256)).toNat = half.toNat % 256 := by simp
    have high : (UInt8.ofNat (half.toNat / 256)).toNat = half.toNat / 256 := by
      rw [UInt8.toNat_ofNat']
      lia
    rw [List.flatMap_cons, halfBytes, List.cons_append, List.cons_append, List.nil_append, halvesOfBytes, ih, low, high,
      word, UInt16.ofNat_toNat]

theorem halvesOfBytes_tileBytes (rows : List (List Half)) : halvesOfBytes (tileBytes rows) = rows.flatten :=
  halvesOfBytes_flatMap _

theorem length_flatMap_halfBytes (halves : List Half) : (halves.flatMap halfBytes).length = halves.length * 2 := by
  induction halves with
  | nil => rfl
  | cons half rest ih =>
    rw [List.flatMap_cons, List.length_append, ih, List.length_cons, halfBytes, List.length_cons, List.length_cons,
      List.length_nil]
    lia

variable {rows : List (List Half)} {kvDim : ℕ}

theorem length_tileBytes (wide : ∀ row ∈ rows, row.length = kvDim) : (tileBytes rows).length = rows.length * kvDim * 2 := by
  rw [tileBytes, length_flatMap_halfBytes, length_flatten_of_sizes wide]

theorem tileBytes_append (left right : List (List Half)) : tileBytes (left ++ right) = tileBytes left ++
    tileBytes right := by
  rw [tileBytes, List.flatten_append, List.flatMap_append]
  rfl

/-- A tile is cut between rows. -/
theorem tileBytes_split (wide : ∀ row ∈ rows, row.length = kvDim) {first : ℕ} (within : first ≤ rows.length) :
    (tileBytes rows).take (first * (kvDim * 2)) = tileBytes (rows.take first) ∧
      (tileBytes rows).drop (first * (kvDim * 2)) = tileBytes (rows.drop first) := by
  have length : (tileBytes (rows.take first)).length = first * (kvDim * 2) := by
    rw [length_tileBytes fun row member => wide row (List.mem_of_mem_take member), List.length_take_of_le within,
      Nat.mul_assoc]
  have split : tileBytes rows = tileBytes (rows.take first) ++ tileBytes (rows.drop first) := by
    rw [← tileBytes_append, List.take_append_drop]
  rw [split]
  exact ⟨List.take_left' length, List.drop_left' length⟩

end Bytes

section Tiles

variable {kvDim headDim capacity : ℕ} {rows : List (List Half)}

theorem checkedMul_eq {left right : ℕ} (small : left * right < usizeBound) :
    checkedMul left right = some (left * right) := by
  rw [checkedMul, if_pos small]

/-- A tile that does not pass the end of the ring is written row by row. -/
theorem writeF16Tile_eq {dest : List Half} {physical : ℕ} (whole : headDim ∣ kvDim) (row : 0 < kvDim)
    (fits : dest.length = capacity * kvDim) (small : capacity * kvDim * 2 < usizeBound)
    (wide : ∀ row ∈ rows, row.length = kvDim) (held : physical + rows.length ≤ capacity) (headMajor : Bool) :
    writeF16Tile dest capacity kvDim headDim headMajor physical rows.length (tileBytes rows) =
      .ok ((rowLayout capacity kvDim headDim headMajor).writeFrom dest physical rows) := by
  have head : headDim ≠ 0 := by
    rintro rfl
    exact absurd (Nat.eq_zero_of_zero_dvd whole) (Nat.pos_iff_ne_zero.mp row)
  have rowsSmall : rows.length * kvDim ≤ capacity * kvDim := Nat.mul_le_mul_right _ (by lia)
  have startSmall : physical * kvDim ≤ capacity * kvDim := Nat.mul_le_mul_right _ (by lia)
  have capacitySmall : capacity ≤ capacity * kvDim := Nat.le_mul_of_pos_right _ row
  have layoutFits : (rowLayout capacity kvDim headDim headMajor).Fits dest := (rowLayout_fits_iff whole).mpr fits
  have sized : (rowLayout capacity kvDim headDim headMajor).Sized rows := by
    intro values member
    rw [rowLayout_row whole]
    exact wide values member
  have room : physical + rows.length ≤ (rowLayout capacity kvDim headDim headMajor).capacity := by
    rwa [rowLayout_capacity]
  have accepted : ¬ (dest.length ≠ saturatingMul capacity kvDim ∨ kvDim = 0 ∨ headDim = 0 ∨ kvDim % headDim ≠ 0 ∨
      (tileBytes rows).length ≠ rows.length * kvDim * 2 ∨ usizeBound ≤ physical + rows.length ∨
        capacity < physical + rows.length) := by
    have storage : dest.length = saturatingMul capacity kvDim := by
      rw [fits, saturatingMul, Nat.min_eq_left (by lia)]
    have modulo : kvDim % headDim = 0 := Nat.mod_eq_zero_of_dvd whole
    have bytes := length_tileBytes wide
    lia
  rw [writeF16Tile, checkedMul_eq (by lia), Option.bind_some, checkedMul_eq (by lia)]
  dsimp only
  rw [if_neg accepted, halvesOfBytes_tileBytes]
  cases headMajor with
  | true =>
    have heads : kvDim / headDim * headDim = kvDim := Nat.div_mul_cancel whole
    have columns := RowLayout.writeColumns_eq layoutFits sized room
    rw [if_pos rfl, ← columns]
    simp only [RowLayout.writeColumns, RowLayout.writeColumn, rowLayout, if_true, RowLayout.offset, heads]
  | false =>
    have block := RowLayout.splice_flatten_eq rfl layoutFits sized room
    rw [if_neg (by simp), checkedMul_eq (by lia), Option.bind_some, checkedMul_eq (by lia), ← block]
    rfl

end Tiles

def KvRow.part (isKey : Bool) (row : KvRow) : List Half := if isKey then row.key else row.value

namespace MetalKvPlane

variable {plane : MetalKvPlane} {kvDim headDim : ℕ}

@[simp] theorem bits_withBits (isKey other : Bool) (dest : List Half) :
    (plane.withBits isKey dest).bits other = if other = isKey then dest else plane.bits other := by
  cases isKey <;> cases other <;> rfl

@[simp] theorem capacity_withBits (isKey : Bool) (dest : List Half) :
    (plane.withBits isKey dest).capacity = plane.capacity := by
  cases isKey <;> rfl

@[simp] theorem len_withBits (isKey : Bool) (dest : List Half) : (plane.withBits isKey dest).len = plane.len := by
  cases isKey <;> rfl

@[simp] theorem originLogical_withBits (isKey : Bool) (dest : List Half) :
    (plane.withBits isKey dest).originLogical = plane.originLogical := by
  cases isKey <;> rfl

@[simp] theorem originPhysical_withBits (isKey : Bool) (dest : List Half) :
    (plane.withBits isKey dest).originPhysical = plane.originPhysical := by
  cases isKey <;> rfl

@[simp] theorem headMajor_withBits (isKey : Bool) (dest : List Half) :
    (plane.withBits isKey dest).headMajor = plane.headMajor := by
  cases isKey <;> rfl

@[simp] theorem layout_withBits (isKey : Bool) (dest : List Half) :
    (plane.withBits isKey dest).layout kvDim headDim = plane.layout kvDim headDim := by
  rw [layout, layout, capacity_withBits, headMajor_withBits]

/-- A tile is written row by row, each row in the slot of its position. -/
theorem writeLogicalTile_eq {rows : List (List Half)} {start : ℕ} (whole : headDim ∣ kvDim) (row : 0 < kvDim)
    (room : 0 < plane.capacity) (aligned : plane.originPhysical = plane.originLogical % plane.capacity) (isKey : Bool)
    (fits : (plane.bits isKey).length = plane.capacity * kvDim) (small : plane.capacity * kvDim * 2 < usizeBound)
    (wide : ∀ row ∈ rows, row.length = kvDim) (few : rows.length ≤ plane.capacity) (after : plane.originLogical ≤ start) :
    plane.writeLogicalTile kvDim headDim start rows.length isKey (tileBytes rows) =
      .ok (plane.withBits isKey ((plane.layout kvDim headDim).writeFrom (plane.bits isKey) start rows)) := by
  have slot : (plane.originPhysical + (start - plane.originLogical)) % plane.capacity = start % plane.capacity := by
    rw [aligned, slot_eq after]
  have held : start % plane.capacity < plane.capacity := Nat.mod_lt _ room
  have layouts : (plane.layout kvDim headDim).capacity = plane.capacity := rowLayout_capacity
  have rowSmall : kvDim * 2 ≤ plane.capacity * kvDim * 2 := by
    rw [Nat.mul_assoc]
    exact Nat.le_mul_of_pos_left _ room
  have rowsSmall : rows.length * (kvDim * 2) ≤ plane.capacity * kvDim * 2 := by
    rw [Nat.mul_assoc]
    exact Nat.mul_le_mul_right _ few
  have length : (tileBytes rows).length = rows.length * (kvDim * 2) := by
    rw [length_tileBytes wide, Nat.mul_assoc]
  obtain ⟨first, firstEq⟩ : ∃ first, first = min rows.length (plane.capacity - start % plane.capacity) := ⟨_, rfl⟩
  have firstSmall : first * (kvDim * 2) ≤ rows.length * (kvDim * 2) := Nat.mul_le_mul_right _ (by lia)
  obtain ⟨front, back⟩ := tileBytes_split wide (show first ≤ rows.length by lia)
  have frontWide : ∀ row ∈ rows.take first, row.length = kvDim := fun row member => wide row (List.mem_of_mem_take member)
  have backWide : ∀ row ∈ rows.drop first, row.length = kvDim := fun row member => wide row (List.mem_of_mem_drop member)
  have frontLength : (rows.take first).length = first := List.length_take_of_le (by lia)
  have backLength : (rows.drop first).length = rows.length - first := List.length_drop
  -- the part up to the end of the ring
  have written := @writeF16Tile_eq _ headDim _ _ _ (start % plane.capacity) whole row fits small frontWide
    (by lia) plane.headMajor
  rw [frontLength] at written
  change _ = Except.ok ((plane.layout kvDim headDim).writeFrom _ _ _) at written
  rw [writeLogicalTile, if_neg (by lia)]
  dsimp only
  rw [slot, ← firstEq, checkedMul_eq (by lia)]
  dsimp only
  rw [checkedMul_eq (by lia)]
  dsimp only
  rw [if_neg (by lia), checkedMul_eq (by lia)]
  dsimp only
  rw [front, back, written]
  by_cases wraps : first < rows.length
  · have edge : start % (plane.layout kvDim headDim).capacity + first = (plane.layout kvDim headDim).capacity := by
      rw [layouts]
      lia
    have wrapped := @RowLayout.writeFrom_wrap _ (plane.layout kvDim headDim) _ _ (plane.bits isKey) _ edge
      (show first ≤ rows.length by lia)
    have sized : (plane.layout kvDim headDim).Sized (rows.take first) := by
      intro values member
      rw [layout, rowLayout_row whole]
      exact frontWide values member
    have kept : ((plane.layout kvDim headDim).writeFrom (plane.bits isKey) (start % plane.capacity)
      (rows.take first)).length =
        plane.capacity * kvDim :=
      (rowLayout_fits_iff whole).mp (RowLayout.fits_writeFrom (by rwa [rowLayout_capacity])
        ((rowLayout_fits_iff whole).mpr fits) sized _)
    have rest := @writeF16Tile_eq _ headDim _ _ _ 0 whole row kept small backWide (by lia) plane.headMajor
    rw [backLength] at rest
    rw [layouts] at wrapped
    rw [← wrapped]
    simp only [Except.mapError, bind, Except.bind, if_pos wraps, rest]
    rfl
  · have all : rows.take first = rows := List.take_of_length_le (by lia)
    have start' := @RowLayout.writeFrom_mod _ (plane.layout kvDim headDim) (plane.bits isKey) start rows
    rw [layouts] at start'
    simp only [Except.mapError, bind, Except.bind, if_neg wraps]
    rw [all, ← start']

/-- An accepted tile changes nothing but the bits it is for. -/
theorem writeLogicalTile_ok (plane : MetalKvPlane) {start count : ℕ} {isKey : Bool} {bytes : Bytes} {next : MetalKvPlane}
    (accepted : plane.writeLogicalTile kvDim headDim start count isKey bytes = .ok next) :
    ∃ dest, next = plane.withBits isKey dest := by
  rw [writeLogicalTile] at accepted
  split at accepted
  · cases accepted
  · dsimp only at accepted
    split at accepted
    · cases accepted
    · split at accepted
      · cases accepted
      · split at accepted
        · cases accepted
        · split at accepted
          · cases accepted
          · obtain ⟨first, -, rest⟩ := bind_eq_ok_iff.mp accepted
            split at rest
            · obtain ⟨second, -, rest⟩ := bind_eq_ok_iff.mp rest
              cases rest
              exact ⟨second, rfl⟩
            · cases rest
              exact ⟨first, rfl⟩

/-- A plane of a new generation for `rows`, its keys and values filled up to the cursors. -/
structure Filling (plane : MetalKvPlane) (kvDim headDim : ℕ) (rows : List KvRow) (cursor : Bool → ℕ) : Prop where
  capacity_pos : 0 < plane.capacity
  whole : headDim ∣ kvDim
  row_pos : 0 < kvDim
  small : plane.capacity * kvDim * 2 < usizeBound
  wide : ∀ row ∈ rows, row.Wide kvDim
  fits : ∀ isKey, (plane.bits isKey).length = plane.capacity * kvDim
  len_eq : plane.len = min rows.length plane.capacity
  originLogical_eq : plane.originLogical = rows.length - plane.len
  originPhysical_eq : plane.originPhysical = plane.originLogical % plane.capacity
  after : ∀ isKey, plane.originLogical ≤ cursor isKey
  held : ∀ isKey, (plane.layout kvDim headDim).Holds (plane.bits isKey) plane.originLogical
    ((rows.map (KvRow.part isKey)).take (cursor isKey))

namespace Filling

variable {rows : List KvRow} {cursor : Bool → ℕ}

theorem part_wide (wide : ∀ row ∈ rows, KvRow.Wide row kvDim) (isKey : Bool) :
    ∀ values ∈ rows.map (KvRow.part isKey), values.length = kvDim := by
  intro values member
  obtain ⟨row, among, rfl⟩ := List.mem_map.mp member
  cases isKey with
  | false => exact (wide row among).value
  | true => exact (wide row among).key

/-- Rows written at a cursor move it on. -/
theorem store (filling : plane.Filling kvDim headDim rows cursor) (isKey : Bool) {count : ℕ}
    (inside : cursor isKey + count ≤ rows.length) :
    (plane.withBits isKey ((plane.layout kvDim headDim).writeFrom (plane.bits isKey) (cursor isKey)
      (slice (rows.map (KvRow.part isKey)) (cursor isKey) count))).Filling kvDim headDim rows
        (Function.update cursor isKey (cursor isKey + count)) := by
  have len := filling.len_eq
  have origin := filling.originLogical_eq
  have after := filling.after isKey
  have layouts : (plane.layout kvDim headDim).capacity = plane.capacity := rowLayout_capacity
  have fits : (plane.layout kvDim headDim).Fits (plane.bits isKey) :=
    (rowLayout_fits_iff filling.whole).mpr (filling.fits isKey)
  have sized : (plane.layout kvDim headDim).Sized (rows.map (KvRow.part isKey)) := by
    intro values member
    rw [layout, rowLayout_row filling.whole]
    exact part_wide filling.wide isKey values member
  have room : 0 < (plane.layout kvDim headDim).capacity := by
    rw [layouts]
    exact filling.capacity_pos
  have filled := (filling.held isKey).fill room fits sized after
    (show cursor isKey + count ≤ (rows.map (KvRow.part isKey)).length by rwa [List.length_map]) (by rw [layouts]; omega)
  have written : (plane.layout kvDim headDim).Fits ((plane.layout kvDim headDim).writeFrom (plane.bits isKey) (cursor isKey)
      (slice (rows.map (KvRow.part isKey)) (cursor isKey) count)) :=
    RowLayout.fits_writeFrom room fits
      (fun values member => sized values (List.mem_of_mem_drop (List.mem_of_mem_take member))) _
  refine
    { capacity_pos := ?_, whole := filling.whole, row_pos := filling.row_pos, small := ?_, wide := filling.wide
      fits := ?_, len_eq := ?_, originLogical_eq := ?_, originPhysical_eq := ?_, after := ?_, held := ?_ }
  · rw [capacity_withBits]
    exact filling.capacity_pos
  · rw [capacity_withBits]
    exact filling.small
  · intro other
    rw [bits_withBits, capacity_withBits]
    split
    · exact (rowLayout_fits_iff filling.whole).mp written
    · exact filling.fits other
  · rw [len_withBits, capacity_withBits, len]
  · rw [originLogical_withBits, len_withBits, origin]
  · rw [originPhysical_withBits, originLogical_withBits, capacity_withBits, filling.originPhysical_eq]
  · intro other
    rw [originLogical_withBits]
    by_cases same : other = isKey
    · subst same
      rw [Function.update_self]
      omega
    · rw [Function.update_of_ne same]
      exact filling.after other
  · intro other
    rw [layout_withBits, bits_withBits, originLogical_withBits]
    by_cases same : other = isKey
    · subst same
      rw [if_pos rfl, Function.update_self]
      exact filled
    · rw [if_neg same, Function.update_of_ne same]
      exact filling.held other

/-- The tile at a cursor is accepted. -/
theorem writeLogicalTile_eq (filling : plane.Filling kvDim headDim rows cursor) (isKey : Bool) {count : ℕ}
    (inside : cursor isKey + count ≤ rows.length) :
    plane.writeLogicalTile kvDim headDim (cursor isKey) count isKey
        (tileBytes (slice (rows.map (KvRow.part isKey)) (cursor isKey) count)) =
      .ok (plane.withBits isKey ((plane.layout kvDim headDim).writeFrom (plane.bits isKey) (cursor isKey)
        (slice (rows.map (KvRow.part isKey)) (cursor isKey) count))) := by
  have len := filling.len_eq
  have origin := filling.originLogical_eq
  have after := filling.after isKey
  have length : (slice (rows.map (KvRow.part isKey)) (cursor isKey) count).length = count :=
    length_slice (by rwa [List.length_map])
  have wide : ∀ values ∈ slice (rows.map (KvRow.part isKey)) (cursor isKey) count, values.length = kvDim :=
    fun values member => part_wide filling.wide isKey values (List.mem_of_mem_drop (List.mem_of_mem_take member))
  have written := MetalKvPlane.writeLogicalTile_eq filling.whole filling.row_pos filling.capacity_pos
    filling.originPhysical_eq isKey (filling.fits isKey) filling.small wide (by omega) after
  rwa [length] at written

/-- With both cursors at the end the plane is one that received the rows. -/
theorem built (filling : plane.Filling kvDim headDim rows cursor) (complete : ∀ isKey, cursor isKey = rows.length) :
    plane.Built kvDim headDim rows := by
  have all (isKey : Bool) : (rows.map (KvRow.part isKey)).take (cursor isKey) = rows.map (KvRow.part isKey) := by
    rw [complete, List.take_of_length_le (by rw [List.length_map])]
  have keys := filling.held true
  have values := filling.held false
  rw [all] at keys values
  exact
    { capacity_pos := filling.capacity_pos
      whole := filling.whole
      wide := filling.wide
      fits_key := filling.fits true
      fits_value := filling.fits false
      len_eq := filling.len_eq
      originLogical_eq := filling.originLogical_eq
      originPhysical_eq := filling.originPhysical_eq
      keys := keys
      values := values }

end Filling

end MetalKvPlane

/-- One plane's tile. -/
structure TileWrite where
  layer : ℕ
  isKey : Bool
  start : ℕ
  count : ℕ
  bytes : Bytes

def TileWrite.range (write : TileWrite) : ℕ × ℕ := (write.start, write.count)

/-- The tiles of one plane's keys or values, in order of arrival. -/
def planeTiles (layer : ℕ) (isKey : Bool) (writes : List TileWrite) : List (ℕ × ℕ) :=
  (writes.filter fun write => write.layer = layer ∧ write.isKey = isKey).map TileWrite.range

namespace MetalRemoteKvInstall

variable {install next : MetalRemoteKvInstall}

/-- Accept tiles one after the other. -/
def writeTiles (install : MetalRemoteKvInstall) (writes : List TileWrite) : Except MetalModelError MetalRemoteKvInstall :=
  writes.foldlM (fun install write =>
    install.writeF16Tile write.layer write.isKey write.start write.count write.bytes) install

theorem writeTiles_cons (install : MetalRemoteKvInstall) (write : TileWrite) (writes : List TileWrite) :
    install.writeTiles (write :: writes) =
      install.writeF16Tile write.layer write.isKey write.start write.count write.bytes >>= fun next =>
        next.writeTiles writes :=
  List.foldlM_cons

/-- The generation with a tile's rows written and its cursor moved. -/
def written (install : MetalRemoteKvInstall) (layer : ℕ) (isKey : Bool) (plane : MetalKvPlane) (dest : List Half)
    (next : ℕ) : MetalRemoteKvInstall :=
  { install with planes := install.planes.set layer (plane.withBits isKey dest) }.setPlaneCursor layer isKey next

section Written

variable {layer : ℕ} {isKey : Bool} {plane : MetalKvPlane} {dest : List Half} {cursor : ℕ}

@[simp] theorem planes_written :
    (install.written layer isKey plane dest cursor).planes = install.planes.set layer (plane.withBits isKey dest) := by
  cases isKey <;> rfl

@[simp] theorem tokens_written : (install.written layer isKey plane dest cursor).tokens = install.tokens := by
  cases isKey <;> rfl

@[simp] theorem expectedLen_written : (install.written layer isKey plane dest cursor).expectedLen = install.expectedLen := by
  cases isKey <;> rfl

@[simp] theorem kvDim_written : (install.written layer isKey plane dest cursor).kvDim = install.kvDim := by
  cases isKey <;> rfl

@[simp] theorem headDim_written : (install.written layer isKey plane dest cursor).headDim = install.headDim := by
  cases isKey <;> rfl

/-- Every plane has a cursor for its keys and one for its values. -/
def Cursors (install : MetalRemoteKvInstall) : Prop :=
  install.nextKey.length = install.planes.length ∧ install.nextValue.length = install.planes.length

theorem Cursors.written (cursors : install.Cursors) : (install.written layer isKey plane dest cursor).Cursors := by
  rw [Cursors, planes_written, List.length_set]
  cases isKey
  · exact ⟨cursors.1, (List.length_set ..).trans cursors.2⟩
  · exact ⟨(List.length_set ..).trans cursors.1, cursors.2⟩

theorem getD_set_eq (entries : List ℕ) {index : ℕ} (inside : index < entries.length) (value other : ℕ) :
    (entries.set index value).getD other 0 = if other = index then value else entries.getD other 0 := by
  rw [List.getD_eq_getElem?_getD, List.getElem?_set, List.getD_eq_getElem?_getD]
  by_cases same : index = other
  · subst same
    simp [inside]
  · rw [if_neg same, if_neg fun equal => same equal.symm]

theorem planeCursor_written (cursors : install.Cursors) (inside : layer < install.planes.length) (otherLayer : ℕ)
    (otherKey : Bool) :
    (install.written layer isKey plane dest cursor).planeCursor otherLayer otherKey =
      if otherLayer = layer ∧ otherKey = isKey then cursor else install.planeCursor otherLayer otherKey := by
  have key := getD_set_eq install.nextKey (by rwa [cursors.1]) cursor otherLayer
  have value := getD_set_eq install.nextValue (by rwa [cursors.2]) cursor otherLayer
  cases isKey <;> cases otherKey <;>
    simp [planeCursor, MetalRemoteKvInstall.written, setPlaneCursor, key, value, -List.getD_eq_getElem?_getD]

end Written

/-- What an accepted tile does: it starts at its plane's cursor, changes the bits of that plane and moves
the cursor to its end. -/
theorem writeF16Tile_ok {layer start count : ℕ} {isKey : Bool} {bytes : Bytes}
    (accepted : install.writeF16Tile layer isKey start count bytes = .ok next) :
    ∃ plane dest, install.planes[layer]? = some plane ∧ start = install.planeCursor layer isKey ∧
      next = install.written layer isKey plane dest (start + count) := by
  rw [writeF16Tile] at accepted
  cases found : install.planes[layer]? with
  | none => simp [found] at accepted
  | some plane =>
    simp only [found] at accepted
    split at accepted
    · cases accepted
    · next here =>
      obtain ⟨after, wrote, rest⟩ := bind_eq_ok_iff.mp accepted
      obtain ⟨dest, rfl⟩ := plane.writeLogicalTile_ok wrote
      split at rest
      · cases rest
      · cases rest
        exact ⟨plane, dest, rfl, not_not.mp here, rfl⟩

/-- What no tile changes: all but the bits and the cursors. -/
structure Kept (install next : MetalRemoteKvInstall) : Prop where
  tokens : next.tokens = install.tokens
  expectedLen : next.expectedLen = install.expectedLen
  kvDim : next.kvDim = install.kvDim
  headDim : next.headDim = install.headDim
  length : next.planes.length = install.planes.length
  planes : ∀ (layer : ℕ) (plane : MetalKvPlane), install.planes[layer]? = some plane →
    ∃ key value, next.planes[layer]? = some { plane with key := key, value := value }

namespace Kept

theorem refl (install : MetalRemoteKvInstall) : install.Kept install where
  tokens := rfl
  expectedLen := rfl
  kvDim := rfl
  headDim := rfl
  length := rfl
  planes := fun _ plane found => ⟨plane.key, plane.value, found⟩

theorem trans {last : MetalRemoteKvInstall} (first : install.Kept next) (second : next.Kept last) : install.Kept last where
  tokens := second.tokens.trans first.tokens
  expectedLen := second.expectedLen.trans first.expectedLen
  kvDim := second.kvDim.trans first.kvDim
  headDim := second.headDim.trans first.headDim
  length := second.length.trans first.length
  planes := fun layer plane found => by
    obtain ⟨key, value, between⟩ := first.planes layer plane found
    obtain ⟨key, value, after⟩ := second.planes layer _ between
    exact ⟨key, value, after⟩

theorem written {layer : ℕ} {plane : MetalKvPlane} (found : install.planes[layer]? = some plane) (isKey : Bool)
    (dest : List Half) (cursor : ℕ) : install.Kept (install.written layer isKey plane dest cursor) where
  tokens := tokens_written
  expectedLen := expectedLen_written
  kvDim := kvDim_written
  headDim := headDim_written
  length := by rw [planes_written, List.length_set]
  planes := fun other present foundOther => by
    rw [planes_written, List.getElem?_set]
    by_cases same : layer = other
    · subst same
      cases found.symm.trans foundOther
      have inside := (List.getElem?_eq_some_iff.mp found).1
      rw [if_pos rfl, if_pos inside]
      cases isKey
      · exact ⟨plane.key, dest, rfl⟩
      · exact ⟨dest, plane.value, rfl⟩
    · rw [if_neg same]
      exact ⟨present.key, present.value, foundOther⟩

end Kept

section PlaneTiles

variable {layer : ℕ} {isKey : Bool} {write : TileWrite}

theorem planeTiles_cons_own (writes : List TileWrite) :
    planeTiles write.layer write.isKey (write :: writes) = write.range :: planeTiles write.layer write.isKey writes := by
  simp [planeTiles]

theorem planeTiles_cons_other (other : ¬ (layer = write.layer ∧ isKey = write.isKey)) (writes : List TileWrite) :
    planeTiles layer isKey (write :: writes) = planeTiles layer isKey writes := by
  have apart : ¬ (write.layer = layer ∧ write.isKey = isKey) := fun same => other ⟨same.1.symm, same.2.symm⟩
  simp [planeTiles, apart]

end PlaneTiles

/-- Accepted tiles follow one another on every plane, from the cursor before to the cursor after. -/
theorem writeTiles_ok {writes : List TileWrite} (cursors : install.Cursors)
    (accepted : install.writeTiles writes = .ok next) :
    next.Cursors ∧ install.Kept next ∧
      ∀ layer isKey, Chain (install.planeCursor layer isKey) (next.planeCursor layer isKey)
        (planeTiles layer isKey writes) := by
  induction writes generalizing install with
  | nil =>
    cases accepted
    exact ⟨cursors, .refl _, fun layer isKey => .done _⟩
  | cons write writes ih =>
    rw [writeTiles_cons] at accepted
    obtain ⟨between, wrote, rest⟩ := bind_eq_ok_iff.mp accepted
    obtain ⟨plane, dest, found, start, rfl⟩ := writeF16Tile_ok wrote
    obtain ⟨last, kept, chains⟩ := ih cursors.written rest
    refine ⟨last, (Kept.written found _ _ _).trans kept, fun layer isKey => ?_⟩
    have chain := chains layer isKey
    rw [planeCursor_written cursors (List.getElem?_eq_some_iff.mp found).1] at chain
    by_cases own : layer = write.layer ∧ isKey = write.isKey
    · obtain ⟨rfl, rfl⟩ := own
      rw [if_pos ⟨rfl, rfl⟩] at chain
      rw [planeTiles_cons_own, ← start]
      exact .tile chain
    · rw [if_neg own] at chain
      rwa [planeTiles_cons_other own]

/-- A generation for `rows`, every plane filled up to its cursors. -/
structure Filling (install : MetalRemoteKvInstall) (rows : ℕ → List KvRow) (cursor : ℕ → Bool → ℕ) : Prop where
  cursors : install.Cursors
  at_cursor : ∀ layer < install.planes.length, ∀ isKey, install.planeCursor layer isKey = cursor layer isKey
  planes : ∀ (layer : ℕ) (plane : MetalKvPlane), install.planes[layer]? = some plane →
    plane.Filling install.kvDim install.headDim (rows layer) (cursor layer)

namespace Filling

variable {rows : ℕ → List KvRow} {cursor stop : ℕ → Bool → ℕ}

/-- The cursors after a tile. -/
def moved (cursor : ℕ → Bool → ℕ) (layer : ℕ) (isKey : Bool) (next : ℕ) : ℕ → Bool → ℕ :=
  fun other otherKey => if other = layer ∧ otherKey = isKey then next else cursor other otherKey

/-- The next tile of a plane is accepted. -/
theorem write (filling : install.Filling rows cursor) {layer count : ℕ} (inside : layer < install.planes.length)
    (isKey : Bool) (room : cursor layer isKey + count ≤ (rows layer).length) (bound : (rows layer).length < usizeBound) :
    ∃ next, install.writeF16Tile layer isKey (cursor layer isKey) count
        (tileBytes (slice ((rows layer).map (KvRow.part isKey)) (cursor layer isKey) count)) = .ok next ∧
      next.Filling rows (moved cursor layer isKey (cursor layer isKey + count)) ∧ install.Kept next := by
  obtain ⟨plane, found⟩ : ∃ plane, install.planes[layer]? = some plane := ⟨_, List.getElem?_eq_getElem inside⟩
  have filled := filling.planes layer plane found
  obtain ⟨dest, destEq⟩ : ∃ dest, dest = (plane.layout install.kvDim install.headDim).writeFrom (plane.bits isKey)
    (cursor layer isKey) (slice ((rows layer).map (KvRow.part isKey)) (cursor layer isKey) count) := ⟨_, rfl⟩
  have wrote := filled.writeLogicalTile_eq isKey room
  have stored := filled.store isKey room
  rw [← destEq] at wrote stored
  refine ⟨install.written layer isKey plane dest (cursor layer isKey + count), ?_, ?_, .written found _ _ _⟩
  · rw [writeF16Tile, found]
    dsimp only
    rw [filling.at_cursor layer inside isKey, if_neg (by simp), wrote]
    simp only [bind, Except.bind]
    rw [if_neg (by omega)]
    rfl
  · refine { cursors := filling.cursors.written, at_cursor := ?_, planes := ?_ }
    · intro other present otherKey
      rw [planes_written, List.length_set] at present
      rw [planeCursor_written filling.cursors inside, filling.at_cursor other present, moved]
    · intro other present foundOther
      rw [planes_written, List.getElem?_set] at foundOther
      rw [kvDim_written, headDim_written]
      by_cases same : layer = other
      · subst same
        rw [if_pos rfl, if_pos inside] at foundOther
        cases foundOther
        have cursors : moved cursor layer isKey (cursor layer isKey + count) layer =
            Function.update (cursor layer) isKey (cursor layer isKey + count) := by
          funext otherKey
          by_cases equal : otherKey = isKey
          · rw [moved, if_pos ⟨rfl, equal⟩, equal, Function.update_self]
          · rw [moved, if_neg fun all => equal all.2, Function.update_of_ne equal]
        rw [cursors]
        exact stored
      · rw [if_neg same] at foundOther
        have cursors : moved cursor layer isKey (cursor layer isKey + count) other = cursor other := by
          funext otherKey
          rw [moved, if_neg fun all => same all.1.symm]
        rw [cursors]
        exact filling.planes other present foundOther

/-- A tile that carries the rows it names. -/
def Carries (rows : ℕ → List KvRow) (write : TileWrite) : Prop :=
  write.bytes = tileBytes (slice ((rows write.layer).map (KvRow.part write.isKey)) write.start write.count)

/-- Tiles that follow one another on every plane and carry its rows are accepted. -/
theorem writeTiles (filling : install.Filling rows cursor) {writes : List TileWrite}
    (inside : ∀ write ∈ writes, write.layer < install.planes.length) (carried : ∀ write ∈ writes, Carries rows write)
    (bound : ∀ layer < install.planes.length, (rows layer).length < usizeBound)
    (chains : ∀ layer < install.planes.length, ∀ isKey,
      Chain (cursor layer isKey) (stop layer isKey) (planeTiles layer isKey writes) ∧
        stop layer isKey ≤ (rows layer).length) :
    ∃ next, install.writeTiles writes = .ok next ∧ next.Filling rows stop ∧ install.Kept next := by
  induction writes generalizing install cursor with
  | nil =>
    have ends : ∀ layer < install.planes.length, ∀ isKey, cursor layer isKey = stop layer isKey := by
      intro layer present isKey
      exact (chains layer present isKey).1.of_nil
    refine ⟨install, rfl, { cursors := filling.cursors, at_cursor := ?_, planes := ?_ }, .refl install⟩
    · intro layer present isKey
      rw [filling.at_cursor layer present isKey, ends layer present isKey]
    · intro layer plane found
      have same : cursor layer = stop layer := funext (ends layer (List.getElem?_eq_some_iff.mp found).1)
      rw [← same]
      exact filling.planes layer plane found
  | cons write writes ih =>
    have present := inside write List.mem_cons_self
    obtain ⟨chain, most⟩ := chains write.layer present write.isKey
    rw [planeTiles_cons_own] at chain
    obtain ⟨start, rest⟩ := chain.of_cons
    change write.start = cursor write.layer write.isKey at start
    change Chain (write.start + write.count) _ _ at rest
    have reach := rest.start_le
    obtain ⟨next, wrote, filled, kept⟩ := @Filling.write _ _ _ filling _ write.count present write.isKey (by lia)
      (bound write.layer present)
    have bytes := carried write List.mem_cons_self
    rw [Carries, start] at bytes
    obtain ⟨last, others, done, keptLast⟩ := ih filled (fun other member => by
        rw [kept.length]
        exact inside other (List.mem_cons_of_mem _ member))
      (fun other member => carried other (List.mem_cons_of_mem _ member))
      (fun layer other => bound layer (by rwa [kept.length] at other))
      (fun layer other isKey => by
        rw [kept.length] at other
        obtain ⟨chain, most⟩ := chains layer other isKey
        refine ⟨?_, most⟩
        rw [moved]
        by_cases own : layer = write.layer ∧ isKey = write.isKey
        · obtain ⟨rfl, rfl⟩ := own
          rwa [if_pos ⟨rfl, rfl⟩, ← start]
        · rw [if_neg own]
          rwa [planeTiles_cons_other own] at chain)
    refine ⟨last, ?_, done, kept.trans keptLast⟩
    rw [writeTiles_cons, start, bytes, wrote]
    exact others

end Filling

end MetalRemoteKvInstall

end Muser.Engine
