import Muser.Engine.Filling
import Muser.Engine.RingRuns

/-! # Taking over a prefix

The planes of a new generation start empty at the first row they will keep. A delta install copies the
rows between there and the cut out of the live rings; that is possible exactly while the live ring has
not overwritten the first of them.
-/

namespace Muser.Engine

variable {kvDim headDim : ℕ}

section Copy

variable {capacity : ℕ} {headMajor : Bool} {rows : List (List Half)}

variable {sourceOrigin destinationOrigin : RingOrigin}

/-- The copy loop writes the rows that the source holds, each in the slot of its position. -/
theorem foldl_copy_eq {source : List Half} (alignedSource : sourceOrigin.physical = sourceOrigin.logical % capacity)
    (alignedDestination : destinationOrigin.physical = destinationOrigin.logical % capacity)
    (wide : ∀ row ∈ rows, row.length = kvDim)
    (holds : (rowLayout capacity kvDim headDim headMajor).Holds source sourceOrigin.logical rows) (destination : List Half)
    {start count : ℕ} (afterSource : sourceOrigin.logical ≤ start) (afterDestination : destinationOrigin.logical ≤ start)
    (inside : start + count ≤ rows.length) :
    (List.range' start count).foldl
        (fun destination logical =>
          writeSlot destination capacity kvDim headDim headMajor
            ((destinationOrigin.physical + (logical - destinationOrigin.logical)) % capacity)
            (readSlot source capacity kvDim headDim headMajor
              ((sourceOrigin.physical + (logical - sourceOrigin.logical)) % capacity)))
        destination =
      (rowLayout capacity kvDim headDim headMajor).writeFrom destination start (slice rows start count) := by
  induction count generalizing destination start with
  | zero => simp [slice, RowLayout.writeFrom]
  | succ count ih =>
    have within : start < rows.length := by lia
    have here := holds start rows[start] afterSource (List.getElem?_eq_getElem within)
    rw [rowLayout_capacity, ← readSlot_eq] at here
    have next : slice rows start (count + 1) = rows[start] :: slice rows (start + 1) count := by
      rw [slice, List.drop_eq_getElem_cons within, List.take_succ_cons, slice]
    rw [List.range'_succ, List.foldl_cons, alignedSource, alignedDestination, slot_eq afterSource, slot_eq afterDestination,
      here, writeSlot_eq _ _ (wide _ (List.getElem_mem within)), next, RowLayout.writeFrom, rowLayout_capacity]
    have rest := ih ((rowLayout capacity kvDim headDim headMajor).writeRow destination (start % capacity) rows[start])
      (show sourceOrigin.logical ≤ start + 1 by lia) (by lia) (by lia)
    rw [alignedSource, alignedDestination] at rest
    exact rest

theorem copyRingPrefixRows_eq {source destination : List Half}
    (room : 0 < capacity) (whole : headDim ∣ kvDim) (row : 0 < kvDim) (small : capacity * kvDim < usizeBound)
    (fitsSource : source.length = capacity * kvDim) (fitsDestination : destination.length = capacity * kvDim)
    (alignedSource : sourceOrigin.physical = sourceOrigin.logical % capacity)
    (alignedDestination : destinationOrigin.physical = destinationOrigin.logical % capacity)
    (wordSource : sourceOrigin.logical + capacity < usizeBound)
    (wordDestination : destinationOrigin.logical + capacity < usizeBound) (wide : ∀ row ∈ rows, row.length = kvDim)
    (holds : (rowLayout capacity kvDim headDim headMajor).Holds source sourceOrigin.logical rows) {start stop : ℕ}
    (ordered : start ≤ stop) (afterSource : sourceOrigin.logical ≤ start)
    (afterDestination : destinationOrigin.logical ≤ start)
    (inside : stop ≤ rows.length) (nearSource : stop ≤ sourceOrigin.logical + capacity)
    (nearDestination : stop ≤ destinationOrigin.logical + capacity) :
    copyRingPrefixRows source destination capacity kvDim headDim headMajor sourceOrigin destinationOrigin start stop =
      .ok ((rowLayout capacity kvDim headDim headMajor).writeFrom destination start (slice rows start (stop - start))) := by
  have head : headDim ≠ 0 := by
    rintro rfl
    exact absurd (Nat.eq_zero_of_zero_dvd whole) (Nat.pos_iff_ne_zero.mp row)
  have modulo : kvDim % headDim = 0 := Nat.mod_eq_zero_of_dvd whole
  have geometry : ¬ (capacity = 0 ∨ headDim = 0 ∨ kvDim = 0 ∨ kvDim % headDim ≠ 0) := by lia
  have storage : ¬ (source.length ≠ capacity * kvDim ∨ destination.length ≠ capacity * kvDim) := by
    rw [fitsSource, fitsDestination]
    lia
  have aligned : ¬ (sourceOrigin.physical ≠ sourceOrigin.logical % capacity ∨
      destinationOrigin.physical ≠ destinationOrigin.logical % capacity) := by
    rw [alignedSource, alignedDestination]
    lia
  have word : ¬ (usizeBound ≤ sourceOrigin.logical + capacity ∨ usizeBound ≤ destinationOrigin.logical + capacity) := by
    lia
  have range : ¬ (stop < start ∨ capacity < stop - start ∨ start < sourceOrigin.logical ∨ start < destinationOrigin.logical ∨
      sourceOrigin.logical + capacity < stop ∨ destinationOrigin.logical + capacity < stop) := by lia
  rw [copyRingPrefixRows, if_neg geometry, checkedMul_eq small]
  dsimp only
  rw [if_neg storage, if_neg aligned, if_neg word, if_neg range, foldl_copy_eq alignedSource alignedDestination wide holds
    destination afterSource afterDestination (by lia)]

end Copy

namespace MetalKvPlane

variable {live plane : MetalKvPlane} {rows history : List KvRow} {prefixCut : ℕ}

/-- A new plane is filled up to its first row: there is nothing before it. -/
theorem remote_filling {kind : MuseLayerKind} {storage : List Half × List Half} (room : 0 < live.capacity)
    (whole : headDim ∣ kvDim) (row : 0 < kvDim) (small : live.capacity * kvDim * 2 < usizeBound)
    (wide : ∀ row ∈ rows, KvRow.Wide row kvDim)
    (allocated : storage.1.length = live.capacity * kvDim ∧ storage.2.length = live.capacity * kvDim)
    (holds : kind.isSwa = false → rows.length ≤ live.capacity) :
    (live.remote kind rows.length storage).Filling kvDim headDim rows fun _ => rows.length - live.capacity := by
  have len : (live.remote kind rows.length storage).len = min rows.length live.capacity := by
    cases sliding : kind.isSwa with
    | false =>
      have most := holds sliding
      simp [remote, sliding, most]
    | true => simp [remote, sliding]
  have capacity : (live.remote kind rows.length storage).capacity = live.capacity := rfl
  have origin : (live.remote kind rows.length storage).originLogical =
      rows.length - (live.remote kind rows.length storage).len := rfl
  refine
    { capacity_pos := room, whole := whole, row_pos := row, small := small, wide := wide
      fits := ?_, len_eq := len, originLogical_eq := origin, originPhysical_eq := rfl, after := ?_, held := ?_ }
  · intro isKey
    cases isKey
    · exact allocated.2
    · exact allocated.1
  · intro isKey
    lia
  · intro isKey position values after get
    rw [List.getElem?_take] at get
    split at get
    · lia
    · cases get

/-- What a plane of the new generation takes over: all rows up to the cut that it keeps. -/
theorem takeOver_eq (built : live.Built kvDim headDim history) (capacity : plane.capacity = live.capacity)
    (headMajor : plane.headMajor = live.headMajor)
    (filling : plane.Filling kvDim headDim rows fun _ => plane.originLogical) (held : prefixCut ≤ history.length)
    (same : history.take prefixCut = rows.take prefixCut) (positive : 0 < prefixCut) (suffix : prefixCut < rows.length)
    (word : history.length + live.capacity < usizeBound ∧ rows.length + live.capacity < usizeBound)
    (present : plane.originLogical < prefixCut → live.originLogical ≤ plane.originLogical) :
    ∃ taken, takeOver kvDim headDim rows.length prefixCut live plane = .ok (taken, max prefixCut plane.originLogical) ∧
      taken.Filling kvDim headDim rows (fun _ => max prefixCut plane.originLogical) ∧
      taken.capacity = plane.capacity ∧ taken.headMajor = plane.headMajor ∧ taken.originLogical = plane.originLogical ∧
      taken.len = plane.len := by
  have liveEnd := built.expected_eq
  have lenLive := built.len_eq
  have len := filling.len_eq
  have origin := filling.originLogical_eq
  have guard : ¬ (prefixCut = 0 ∨ rows.length ≤ prefixCut) := by lia
  have reached : ¬ live.originLogical + live.len < prefixCut := by lia
  by_cases inside : plane.originLogical < prefixCut
  · have before := present inside
    have span : deltaPrefixSpan plane.originLogical rows.length prefixCut live.originLogical
        (live.originLogical + live.len) =
        .ok ⟨plane.originLogical, prefixCut, max prefixCut plane.originLogical⟩ := by
      rw [deltaPrefixSpan, if_neg guard, if_neg reached, if_pos inside, if_neg (by lia)]
    have layouts : rowLayout plane.capacity kvDim headDim plane.headMajor = live.layout kvDim headDim := by
      rw [layout, capacity, headMajor]
    have copied (isKey : Bool) : copyRingPrefixRows (live.bits isKey) (plane.bits isKey) plane.capacity kvDim headDim
        plane.headMajor live.origin plane.origin plane.originLogical prefixCut =
        .ok ((plane.layout kvDim headDim).writeFrom (plane.bits isKey) plane.originLogical
          (slice (rows.map (KvRow.part isKey)) plane.originLogical (prefixCut - plane.originLogical))) := by
      have fits : (live.bits isKey).length = plane.capacity * kvDim := by
        rw [capacity]
        cases isKey
        · exact built.fits_value
        · exact built.fits_key
      have holds : (live.layout kvDim headDim).Holds (live.bits isKey) live.originLogical
          (history.map (KvRow.part isKey)) := by
        cases isKey
        · exact built.values
        · exact built.keys
      have agree : slice (history.map (KvRow.part isKey)) plane.originLogical (prefixCut - plane.originLogical) =
          slice (rows.map (KvRow.part isKey)) plane.originLogical (prefixCut - plane.originLogical) := by
        have cut : prefixCut = plane.originLogical + (prefixCut - plane.originLogical) := by lia
        have parts := congrArg (fun list => (list.map (KvRow.part isKey)).drop plane.originLogical) same
        simp only [List.map_take, List.drop_take] at parts
        exact parts
      rw [← agree]
      have wideHistory := Filling.part_wide built.wide isKey
      have small := filling.small
      exact copyRingPrefixRows_eq filling.capacity_pos filling.whole filling.row_pos (by lia) fits (filling.fits isKey)
        (by rw [capacity]; exact built.originPhysical_eq) filling.originPhysical_eq
        (by change live.originLogical + plane.capacity < usizeBound; lia)
        (by change plane.originLogical + plane.capacity < usizeBound; lia) wideHistory (by rw [layouts]; exact holds)
        inside.le before (le_refl plane.originLogical) (by rw [List.length_map]; lia)
        (by change prefixCut ≤ live.originLogical + plane.capacity; lia)
        (by change prefixCut ≤ plane.originLogical + plane.capacity; lia)
    have room : plane.originLogical + (prefixCut - plane.originLogical) ≤ rows.length := by lia
    have keys := filling.store true room
    have values := @Filling.store _ _ _ _ _ keys false (prefixCut - plane.originLogical) (by
      rw [Function.update_of_ne (by decide)]
      exact room)
    have cursors : Function.update (Function.update (fun _ => plane.originLogical) true
        (plane.originLogical + (prefixCut - plane.originLogical))) false
        (plane.originLogical + (prefixCut - plane.originLogical)) = fun _ => max prefixCut plane.originLogical := by
      funext isKey
      cases isKey
      · rw [Function.update_self]
        lia
      · rw [Function.update_of_ne (by decide), Function.update_self]
        lia
    rw [Function.update_of_ne (show false ≠ true by decide), cursors, layout_withBits, bits_withBits,
      if_neg (show ¬ (false = true) by decide)] at values
    have key : copyRingPrefixRows live.key plane.key _ _ _ _ _ _ _ _ = _ := copied true
    have value : copyRingPrefixRows live.value plane.value _ _ _ _ _ _ _ _ = _ := copied false
    refine ⟨_, ?_, values, rfl, rfl, rfl, rfl⟩
    rw [takeOver, span]
    simp only [Except.mapError, bind, Except.bind, if_pos inside, key, value]
    rfl
  · have span : deltaPrefixSpan plane.originLogical rows.length prefixCut live.originLogical
        (live.originLogical + live.len) =
        .ok ⟨plane.originLogical, plane.originLogical, max prefixCut plane.originLogical⟩ := by
      rw [deltaPrefixSpan, if_neg guard, if_neg reached, if_neg inside]
    have resume : max prefixCut plane.originLogical = plane.originLogical := by lia
    refine ⟨plane, ?_, by rwa [resume], rfl, rfl, rfl, rfl⟩
    rw [takeOver, span]
    simp [Except.mapError, bind, Except.bind]

/-- Once the first row a plane would keep is overwritten, nothing can be taken over. -/
theorem takeOver_error (built : live.Built kvDim headDim history) (held : prefixCut ≤ history.length) {position : ℕ}
    (positive : 0 < prefixCut) (suffix : prefixCut < position) (inside : plane.originLogical < prefixCut)
    (lost : plane.originLogical < live.originLogical) :
    takeOver kvDim headDim position prefixCut live plane =
      .error (.invalidSnapshot "the live ring no longer holds the delta window origin") := by
  have liveEnd := built.expected_eq
  have span : deltaPrefixSpan plane.originLogical position prefixCut live.originLogical
      (live.originLogical + live.len) = .error "the live ring no longer holds the delta window origin" := by
    rw [deltaPrefixSpan, if_neg (by lia), if_neg (by lia), if_pos inside, if_pos lost]
  rw [takeOver, span]
  rfl

end MetalKvPlane

section Session

/-- The row of every position, as a function of the tokens up to it. -/
def kvRows (rowOf : ℕ → List Token → KvRow) (layer : ℕ) (tokens : List Token) : List KvRow :=
  (List.range tokens.length).map fun index => rowOf layer (tokens.take (index + 1))

def kindOf (layer : ℕ) : MuseLayerKind := if layer % 4 = 3 then .fullNoPe else .slidingRope

/-- The rows a plane has room for in a session. -/
def planeCapacity (maxContext : ℕ) : MuseLayerKind → ℕ
  | .slidingRope => max (min maxContext museSwaWindow) 32
  | .fullNoPe => max maxContext 32

/-- A session whose planes received `history`. -/
structure LiveSession (model : MetalMuseModel) (maxContext : ℕ) (rowOf : ℕ → List Token → KvRow) (history : List Token) :
    Prop where
  kinds : model.layerKinds = (List.range museLayerCount).map kindOf
  kvDim : model.kvDim = 256
  length : model.cache.length = museLayerCount
  nPast : model.nPast = history.length
  wide : ∀ layer tokens, (rowOf layer tokens).Wide 256
  planes : ∀ (layer : ℕ) (plane : MetalKvPlane), model.cache[layer]? = some plane →
    plane.capacity = planeCapacity maxContext (kindOf layer) ∧ plane.Built 256 model.headDim (kvRows rowOf layer history)

/-- The allocator answers storage of the right size. -/
def Allocated (model : MetalMuseModel) (storage : ℕ → List Half × List Half) : Prop :=
  ∀ (layer : ℕ) (plane : MetalKvPlane), model.cache[layer]? = some plane →
    (storage layer).1.length = plane.capacity * 256 ∧ (storage layer).2.length = plane.capacity * 256

/-- A generation that has been begun for `prompt`, its planes to be filled from `resume` on. -/
structure Begun (model : MetalMuseModel) (rowOf : ℕ → List Token → KvRow) (prompt : List Token) (resume : ℕ → ℕ)
    (install : MetalRemoteKvInstall) : Prop where
  filling : install.Filling (fun layer => kvRows rowOf layer prompt) fun layer _ => resume layer
  tokens : install.tokens = prompt
  kvDim : install.kvDim = 256
  headDim : install.headDim = model.headDim
  length : install.planes.length = museLayerCount
  planes : ∀ (layer : ℕ) (plane : MetalKvPlane), install.planes[layer]? = some plane →
    ∃ live, model.cache[layer]? = some live ∧ plane.capacity = live.capacity ∧ plane.headMajor = live.headMajor ∧
      install.expectedLen.getD layer 0 = plane.len

variable {model : MetalMuseModel} {maxContext prefixCut : ℕ} {rowOf : ℕ → List Token → KvRow} {history prompt : List Token}
  {storage : ℕ → List Half × List Half}

@[simp] theorem length_kvRows (layer : ℕ) (tokens : List Token) : (kvRows rowOf layer tokens).length = tokens.length := by
  rw [kvRows, List.length_map, List.length_range]

/-- A prefix of the tokens determines the rows of its positions. -/
theorem take_kvRows (layer : ℕ) (tokens : List Token) (count : ℕ) :
    (kvRows rowOf layer tokens).take count = kvRows rowOf layer (tokens.take count) := by
  rw [kvRows, kvRows, ← List.map_take, List.take_range, List.length_take]
  apply List.map_congr_left
  intro index member
  have before := List.mem_range.mp member
  rw [List.take_take, min_eq_left (by omega)]

theorem wide_kvRows (wide : ∀ layer tokens, (rowOf layer tokens).Wide 256) (layer : ℕ) (tokens : List Token) :
    ∀ row ∈ kvRows rowOf layer tokens, row.Wide 256 := by
  intro row member
  obtain ⟨index, -, rfl⟩ := List.mem_map.mp member
  exact wide layer _

/-- The first row that the plane of a layer keeps of a prompt. -/
def windowOrigin (maxContext position layer : ℕ) : ℕ := position - planeCapacity maxContext (kindOf layer)

theorem planeCapacity_le (maxContext : ℕ) (kind : MuseLayerKind) : planeCapacity maxContext kind ≤ max maxContext 32 := by
  cases kind
  · exact max_le_max (min_le_left _ _) (le_refl _)
  · exact le_refl _

/-- An entry of a mapped list. -/
theorem getD_map_of_getElem? {α : Type} {entries : List α} {index : ℕ} {entry : α} (found : entries[index]? = some entry)
    (part : α → ℕ) : (entries.map part).getD index 0 = part entry := by
  rw [List.getD_eq_getElem?_getD, List.getElem?_map, found]
  rfl

theorem MetalRemoteKvInstall.validateComplete_ok {install : MetalRemoteKvInstall} :
    install.validateComplete = .ok () ↔ ∀ (layer : ℕ) (plane : MetalKvPlane), install.planes[layer]? = some plane →
      ∀ isKey, install.planeCursor layer isKey = plane.originLogical + install.expectedLen.getD layer 0 := by
  rw [validateComplete, forM_eq_ok_iff]
  constructor
  · intro all layer plane found isKey
    have complete := all (plane, layer) (List.mem_zipIdx_iff_getElem?.mpr found)
    rw [reject_eq_ok_iff, Bool.or_eq_false_iff, bne_eq_false_iff_eq, bne_eq_false_iff_eq] at complete
    cases isKey
    · exact complete.2
    · exact complete.1
  · rintro all ⟨plane, layer⟩ member
    have complete := all layer plane (List.mem_zipIdx_iff_getElem?.mp member)
    rw [reject_eq_ok_iff, Bool.or_eq_false_iff, bne_eq_false_iff_eq, bne_eq_false_iff_eq]
    exact ⟨complete true, complete false⟩

/-- What a plane of a full install looks like before any tile. -/
theorem LiveSession.remote_of_getElem? (live : LiveSession model maxContext rowOf history) {layer : ℕ} {plane : MetalKvPlane}
    (found : ((model.cache.zip model.layerKinds).mapIdx fun layer entry =>
      entry.1.remote entry.2 prompt.length (storage layer))[layer]? = some plane) :
    ∃ held, model.cache[layer]? = some held ∧ plane = held.remote (kindOf layer) prompt.length (storage layer) := by
  rw [List.getElem?_mapIdx] at found
  obtain ⟨⟨held, kind⟩, zipped, rfl⟩ := Option.map_eq_some_iff.mp found
  obtain ⟨foundPlane, foundKind⟩ := List.getElem?_zip_eq_some.mp zipped
  have inside : layer < museLayerCount := by
    rw [← live.length]
    exact (List.getElem?_eq_some_iff.mp foundPlane).1
  rw [live.kinds, List.getElem?_map, List.getElem?_range inside] at foundKind
  cases foundKind
  exact ⟨held, foundPlane, rfl⟩

/-- A full install begins with empty planes. -/
theorem LiveSession.begin_full (live : LiveSession model maxContext rowOf history)
    (memory : (history.length + max maxContext 32) * 512 < usizeBound) (fits : prompt.length ≤ maxContext)
    (allocated : Allocated model storage) (nonempty : 0 < prompt.length) :
    ∃ install, model.beginRemoteKvInstall storage prompt = .ok install ∧
      Begun model rowOf prompt (windowOrigin maxContext prompt.length) install := by
  obtain ⟨planes, planesEq⟩ : ∃ planes, planes = (model.cache.zip model.layerKinds).mapIdx fun layer entry =>
    entry.1.remote entry.2 prompt.length (storage layer) := ⟨_, rfl⟩
  have begun : model.beginRemoteKvInstall storage prompt =
      .ok ⟨prompt, planes, planes.map (·.originLogical), planes.map (·.originLogical), planes.map (·.len), model.kvDim,
        model.headDim⟩ := by
    rw [MetalMuseModel.beginRemoteKvInstall, if_neg (by omega), planesEq]
  have filled : ∀ (layer : ℕ) (plane : MetalKvPlane), planes[layer]? = some plane →
      plane.originLogical = windowOrigin maxContext prompt.length layer ∧
      plane.Filling 256 model.headDim (kvRows rowOf layer prompt) fun _ => windowOrigin maxContext prompt.length layer := by
    intro layer plane found
    rw [planesEq] at found
    obtain ⟨held, foundLive, rfl⟩ := live.remote_of_getElem? found
    obtain ⟨capacity, built⟩ := live.planes layer held foundLive
    have most := planeCapacity_le maxContext (kindOf layer)
    have filling := @MetalKvPlane.remote_filling _ _ _ (kvRows rowOf layer prompt) (kindOf layer) _ built.capacity_pos
      built.whole (by decide) (by omega) (wide_kvRows live.wide layer prompt) (allocated layer held foundLive) (by
        intro growing
        have kind : kindOf layer = .fullNoPe := by
          cases kind : kindOf layer with
          | slidingRope => simp [kind, MuseLayerKind.isSwa] at growing
          | fullNoPe => rfl
        rw [length_kvRows, capacity, kind, planeCapacity]
        omega)
    have origin := filling.originLogical_eq
    have len := filling.len_eq
    rw [length_kvRows, capacity] at filling
    rw [length_kvRows] at origin len
    change _ = min _ held.capacity at len
    refine ⟨?_, filling⟩
    rw [origin, len, windowOrigin, ← capacity]
    omega
  have length : planes.length = museLayerCount := by
    rw [planesEq, List.length_mapIdx, List.length_zip, live.length, live.kinds, List.length_map, List.length_range,
      min_self]
  refine ⟨_, begun, ?_⟩
  exact
    { filling :=
        { cursors := ⟨List.length_map _, List.length_map _⟩
          at_cursor := fun layer inside isKey => by
            have found := List.getElem?_eq_getElem inside
            have cursor := getD_map_of_getElem? found (·.originLogical)
            have origin := (filled layer _ found).1
            cases isKey
            · exact cursor.trans origin
            · exact cursor.trans origin
          planes := fun layer plane found => by
            change plane.Filling model.kvDim _ _ _
            rw [live.kvDim]
            exact (filled layer plane found).2 }
      tokens := rfl
      kvDim := live.kvDim
      headDim := rfl
      length := length
      planes := fun layer plane found => by
        have len := getD_map_of_getElem? found (·.len)
        change planes[layer]? = some plane at found
        rw [planesEq] at found
        obtain ⟨held, foundLive, rfl⟩ := live.remote_of_getElem? found
        exact ⟨held, foundLive, rfl, rfl, len⟩ }

theorem forall₂_getElem? {α β : Type} {related : α → β → Prop} {left : List α} {right : List β}
    (pairs : List.Forall₂ related left right) {index : ℕ} {answer : β} (found : right[index]? = some answer) :
    ∃ item, left[index]? = some item ∧ related item answer := by
  induction pairs generalizing index with
  | nil => simp at found
  | cons first _ ih =>
    cases index with
    | zero =>
      cases found
      exact ⟨_, rfl, first⟩
    | succ index => exact ih found

/-- No plane needs a row that the live ring has overwritten. -/
def PrefixHeld (model : MetalMuseModel) (maxContext position prefixCut : ℕ) : Prop :=
  ∀ (layer : ℕ) (plane : MetalKvPlane), model.cache[layer]? = some plane →
    windowOrigin maxContext position layer < prefixCut → plane.originLogical ≤ windowOrigin maxContext position layer

variable {install : MetalRemoteKvInstall}

/-- What one plane of a session takes over. -/
theorem LiveSession.takeOver (live : LiveSession model maxContext rowOf history)
    (memory : (history.length + max maxContext 32) * 512 < usizeBound) (fits : prompt.length ≤ maxContext)
    (positive : 0 < prefixCut) (suffix : prefixCut < prompt.length) (held : prefixCut ≤ history.length)
    (same : history.take prefixCut = prompt.take prefixCut)
    (begun : Begun model rowOf prompt (windowOrigin maxContext prompt.length) install)
    (present : PrefixHeld model maxContext prompt.length prefixCut) {layer : ℕ} {livePlane plane : MetalKvPlane}
    (foundLive : model.cache[layer]? = some livePlane) (found : install.planes[layer]? = some plane) :
    ∃ taken, livePlane.takeOver 256 model.headDim prompt.length prefixCut plane =
        .ok (taken, max prefixCut (windowOrigin maxContext prompt.length layer)) ∧
      taken.Filling 256 model.headDim (kvRows rowOf layer prompt)
        (fun _ => max prefixCut (windowOrigin maxContext prompt.length layer)) ∧
      taken.capacity = plane.capacity ∧ taken.headMajor = plane.headMajor ∧ taken.originLogical = plane.originLogical ∧
      taken.len = plane.len := by
  obtain ⟨other, foundOther, capacity, headMajor, -⟩ := begun.planes layer plane found
  cases foundLive.symm.trans foundOther
  obtain ⟨room, built⟩ := live.planes layer livePlane foundLive
  have most := planeCapacity_le maxContext (kindOf layer)
  have filling := begun.filling.planes layer plane found
  rw [begun.kvDim, begun.headDim] at filling
  have len := filling.len_eq
  have origin : plane.originLogical = windowOrigin maxContext prompt.length layer := by
    rw [filling.originLogical_eq, len, length_kvRows, windowOrigin, ← room, ← capacity]
    lia
  have rows : (kvRows rowOf layer history).take prefixCut = (kvRows rowOf layer prompt).take prefixCut := by
    rw [take_kvRows, take_kvRows, same]
  have needed := present layer livePlane foundLive
  rw [← origin] at filling needed ⊢
  have taken := MetalKvPlane.takeOver_eq built capacity headMajor filling (by rwa [length_kvRows]) rows positive
    (by rwa [length_kvRows]) (by rw [length_kvRows, length_kvRows]; lia) needed
  rwa [length_kvRows] at taken

/-- A delta install begins exactly while every live ring still holds the rows it has to give. -/
theorem LiveSession.begin_delta (live : LiveSession model maxContext rowOf history)
    (memory : (history.length + max maxContext 32) * 512 < usizeBound) (fits : prompt.length ≤ maxContext)
    (allocated : Allocated model storage) (positive : 0 < prefixCut) (suffix : prefixCut < prompt.length)
    (held : prefixCut ≤ history.length) (same : history.take prefixCut = prompt.take prefixCut)
    (present : PrefixHeld model maxContext prompt.length prefixCut) :
    ∃ install, model.beginRemoteKvInstallDelta storage prompt prefixCut = .ok install ∧
      Begun model rowOf prompt (fun layer => max prefixCut (windowOrigin maxContext prompt.length layer)) install := by
  obtain ⟨install, full, begun⟩ := live.begin_full memory fits allocated (by lia : 0 < prompt.length)
  have each : ∀ entry ∈ model.cache.zip install.planes, ∃ answer,
      entry.1.takeOver model.kvDim model.headDim prompt.length prefixCut entry.2 = .ok answer ∧ True := by
    intro entry member
    obtain ⟨layer, zipped⟩ := List.getElem?_of_mem member
    obtain ⟨foundLive, found⟩ := List.getElem?_zip_eq_some.mp zipped
    obtain ⟨taken, took, -⟩ := live.takeOver memory fits positive suffix held same begun present foundLive found
    rw [live.kvDim]
    exact ⟨_, took, trivial⟩
  obtain ⟨filled, mapped, -⟩ := mapM_eq_ok _ _ _ each
  have pairs := forall₂_of_mapM_eq_ok mapped
  have size : filled.length = museLayerCount := by
    rw [← pairs.length_eq, List.length_zip, live.length, begun.length, min_self]
  -- the plane and the cursor of a layer are what it takes over
  have entry : ∀ (layer : ℕ) (answer : MetalKvPlane × ℕ), filled[layer]? = some answer →
      ∃ livePlane plane, model.cache[layer]? = some livePlane ∧ install.planes[layer]? = some plane ∧
        answer.2 = max prefixCut (windowOrigin maxContext prompt.length layer) ∧
        answer.1.Filling 256 model.headDim (kvRows rowOf layer prompt)
          (fun _ => max prefixCut (windowOrigin maxContext prompt.length layer)) ∧
        answer.1.capacity = plane.capacity ∧ answer.1.headMajor = plane.headMajor ∧ answer.1.len = plane.len := by
    intro layer answer found
    obtain ⟨⟨livePlane, plane⟩, zipped, took⟩ := forall₂_getElem? pairs found
    obtain ⟨foundLive, foundPlane⟩ := List.getElem?_zip_eq_some.mp zipped
    obtain ⟨taken, took', filling, capacity, headMajor, -, len⟩ :=
      live.takeOver memory fits positive suffix held same begun present foundLive foundPlane
    rw [live.kvDim] at took
    cases took.symm.trans took'
    exact ⟨livePlane, plane, foundLive, foundPlane, rfl, filling, capacity, headMajor, len⟩
  refine ⟨{ install with
    planes := filled.map Prod.fst, nextKey := filled.map Prod.snd, nextValue := filled.map Prod.snd }, ?_, ?_⟩
  · rw [MetalMuseModel.beginRemoteKvInstallDelta, if_neg (by lia), if_neg (by rw [live.nPast]; lia), full]
    simp only [bind, Except.bind]
    rw [mapped]
  · have planeOf : ∀ (layer : ℕ) (plane : MetalKvPlane), (filled.map Prod.fst)[layer]? = some plane →
        ∃ answer, filled[layer]? = some answer ∧ answer.1 = plane := by
      intro layer plane found
      rw [List.getElem?_map] at found
      exact Option.map_eq_some_iff.mp found
    exact
      { filling :=
          { cursors := ⟨by simp, by simp⟩
            at_cursor := fun layer inside isKey => by
              change layer < (filled.map Prod.fst).length at inside
              rw [List.length_map] at inside
              have found := List.getElem?_eq_getElem inside
              obtain ⟨-, -, -, -, resume, -⟩ := entry layer _ found
              have cursor := getD_map_of_getElem? found Prod.snd
              cases isKey
              · exact cursor.trans resume
              · exact cursor.trans resume
            planes := fun layer plane found => by
              obtain ⟨answer, foundAnswer, rfl⟩ := planeOf layer plane found
              obtain ⟨-, -, -, -, -, filling, -⟩ := entry layer answer foundAnswer
              change answer.1.Filling install.kvDim install.headDim _ _
              rw [begun.kvDim, begun.headDim]
              exact filling }
        tokens := begun.tokens
        kvDim := begun.kvDim
        headDim := begun.headDim
        length := (List.length_map _).trans size
        planes := fun layer plane found => by
          obtain ⟨answer, foundAnswer, rfl⟩ := planeOf layer plane found
          obtain ⟨livePlane, before, foundLive, foundBefore, -, -, capacity, headMajor, len⟩ :=
            entry layer answer foundAnswer
          obtain ⟨other, foundOther, capacity', headMajor', expected⟩ := begun.planes layer before foundBefore
          cases foundLive.symm.trans foundOther
          exact ⟨livePlane, foundLive, capacity.trans capacity', headMajor.trans headMajor', expected.trans len.symm⟩ }

/-- A delta install that begins found every row it takes over. -/
theorem LiveSession.prefixHeld_of_begin_delta (live : LiveSession model maxContext rowOf history)
    (memory : (history.length + max maxContext 32) * 512 < usizeBound) (fits : prompt.length ≤ maxContext)
    (allocated : Allocated model storage) (positive : 0 < prefixCut) (suffix : prefixCut < prompt.length)
    (held : prefixCut ≤ history.length) (begins : model.beginRemoteKvInstallDelta storage prompt prefixCut = .ok install) :
    PrefixHeld model maxContext prompt.length prefixCut := by
  obtain ⟨base, full, begun⟩ := live.begin_full memory fits allocated (by lia : 0 < prompt.length)
  rw [MetalMuseModel.beginRemoteKvInstallDelta, if_neg (by lia), if_neg (by rw [live.nPast]; lia), full] at begins
  obtain ⟨_, started, begins⟩ := bind_eq_ok_iff.mp begins
  cases started
  obtain ⟨filled, mapped, -⟩ := bind_eq_ok_iff.mp begins
  intro layer livePlane foundLive needed
  by_contra lost
  have inside : layer < base.planes.length := by
    rw [begun.length, ← live.length]
    exact (List.getElem?_eq_some_iff.mp foundLive).1
  have found := List.getElem?_eq_getElem inside
  obtain ⟨capacity, built⟩ := live.planes layer livePlane foundLive
  obtain ⟨other, foundOther, same, -⟩ := begun.planes layer _ found
  cases foundLive.symm.trans foundOther
  have filling := begun.filling.planes layer _ found
  have len := filling.len_eq
  have origin : base.planes[layer].originLogical = windowOrigin maxContext prompt.length layer := by
    rw [filling.originLogical_eq, len, length_kvRows, windowOrigin, ← capacity, ← same]
    lia
  have refused := @MetalKvPlane.takeOver_error _ _ _ base.planes[layer] _ _ built (by rwa [length_kvRows]) _ positive suffix
    (by rwa [origin]) (by lia)
  have member : (livePlane, base.planes[layer]) ∈ model.cache.zip base.planes := by
    exact List.mem_of_getElem? (List.getElem?_zip_eq_some.mpr ⟨foundLive, found⟩)
  obtain ⟨index, inside', here⟩ := List.getElem_of_mem member
  have pairs := forall₂_of_mapM_eq_ok mapped
  have took := pairs.get inside' (by rwa [← pairs.length_eq])
  simp only [List.get_eq_getElem, here, live.kvDim, refused] at took
  cases took

end Session

end Muser.Engine
