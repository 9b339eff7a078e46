import Muser.Cluster.Install

/-! # Delta installs

The tiles of a span, with the prompt's rows as payload, fill exactly what a delta install has left to
fill. The generation that results holds every row in the slot where a full install, or the prompt's own
rows appended one by one, would have put it.
-/

namespace Muser.Cluster

open Muser.Engine

section Planes

/-- The planes of the group that starts with `head`. -/
def groupPlanes (head : ℕ) : List (ℕ × Bool) :=
  match swaGroup head with
  | .ok group => packedPlanesOf group
  | .error _ => []

theorem swaGroup_of_mem {head : ℕ} (member : head ∈ swaGroupHeads) :
    ∃ group, swaGroup head = .ok group ∧ group.length = 13 := by
  rw [swaGroupHeads_eq] at member
  rcases List.mem_cons.mp member with rfl | member
  · exact ⟨swaLayers.take 13, by decide, by decide⟩
  · rcases List.mem_cons.mp member with rfl | member
    · exact ⟨(swaLayers.drop 13).take 13, by decide, by decide⟩
    · obtain rfl := List.mem_singleton.mp member
      exact ⟨swaLayers.drop 26, by decide, by decide⟩

theorem nodup_groupPlanes : ∀ head ∈ swaGroupHeads, (groupPlanes head).Nodup := by decide

theorem nodup_nopePlanes : (packedPlanesOf nopeLayers).Nodup := by decide

/-- A plane is in the tiles of the other layers, or in those of one group. -/
theorem mem_nopePlanes : ∀ layer < nLayers, ∀ isKey, (layer, isKey) ∈ packedPlanesOf nopeLayers ↔ layer % 4 = 3 := by
  decide

theorem mem_groupPlanes_of_nope : ∀ layer < nLayers, layer % 4 = 3 → ∀ head ∈ swaGroupHeads, ∀ isKey,
    (layer, isKey) ∉ groupPlanes head := by
  decide

/-- The head of the group of a sliding layer. -/
def groupHeadOf (layer : ℕ) : ℕ := if layer < 17 then 0 else if layer < 34 then 17 else 34

theorem groupHeadOf_mem (layer : ℕ) : groupHeadOf layer ∈ swaGroupHeads := by
  rw [groupHeadOf, swaGroupHeads_eq]
  split
  · simp
  · split <;> simp

theorem mem_groupPlanes : ∀ layer < nLayers, layer % 4 ≠ 3 → ∀ head ∈ swaGroupHeads, ∀ isKey,
    (layer, isKey) ∈ groupPlanes head ↔ head = groupHeadOf layer := by
  decide

end Planes

section Payload

variable {rows : ℕ → List KvRow} {segment : Coordinates} {layer : ℕ} {isKey : Bool}

/-- What a segment carries: for each plane, its rows in the segment's range. -/
def segmentPayload (rows : ℕ → List KvRow) (segment : Coordinates) : Bytes :=
  (segmentPlanes segment).flatMap fun plane =>
    tileBytes (slice ((rows plane.1).map (KvRow.part plane.2)) segment.logicalStart segment.logicalCount)

/-- A segment of the target part, in the form that the sink installs. -/
structure Packed (segment : Coordinates) : Prop where
  elementType : segment.elementType = "f16_le"
  elementsPerToken : segment.elementsPerToken = packedPlanes * 256
  count : segment.logicalCount ≤ nopeTile
  role : segment.role = .nopeTile ∨ segment.role = .swaTile ∧ ∃ head ∈ swaGroupHeads, segment.layer = some head

theorem groupPlanes_lt : ∀ head ∈ swaGroupHeads, ∀ plane ∈ groupPlanes head, plane.1 < museLayerCount := by decide

theorem nopePlanes_lt : ∀ plane ∈ packedPlanesOf nopeLayers, plane.1 < museLayerCount := by decide

theorem Packed.layer_lt (packed : Packed segment) {plane : ℕ × Bool} (named : plane ∈ segmentPlanes segment) :
    plane.1 < museLayerCount := by
  rcases packed.role with role | ⟨role, head, member, layer⟩
  · simp only [segmentPlanes, role] at named
    exact nopePlanes_lt plane named
  · simp only [segmentPlanes, role, layer] at named
    exact groupPlanes_lt head member plane named

/-- The tiles of a segment are of one size. -/
theorem length_tiles (wide : ∀ layer, ∀ row ∈ rows layer, KvRow.Wide row 256)
    (inside : ∀ layer, segment.logicalStart + segment.logicalCount ≤ (rows layer).length) :
    ∀ piece ∈ (segmentPlanes segment).map fun plane =>
      tileBytes (slice ((rows plane.1).map (KvRow.part plane.2)) segment.logicalStart segment.logicalCount),
      piece.length = segment.logicalCount * 256 * 2 := by
  intro piece member
  obtain ⟨plane, -, rfl⟩ := List.mem_map.mp member
  rw [@length_tileBytes _ 256, length_slice]
  · rw [List.length_map]
    exact inside plane.1
  · intro values present
    exact MetalKvPlane.Filling.part_wide (wide plane.1) plane.2 values
      (List.mem_of_mem_drop (List.mem_of_mem_take present))

/-- The tiles of a packed segment are its planes', each with its own part of the payload. -/
theorem Packed.segmentWrites_eq (packed : Packed segment) (wide : ∀ layer, ∀ row ∈ rows layer, KvRow.Wide row 256)
    (inside : ∀ layer, segment.logicalStart + segment.logicalCount ≤ (rows layer).length) :
    segmentWrites (segment, segmentPayload rows segment) =
      (segmentPlanes segment).map fun plane =>
        { layer := plane.1
          isKey := plane.2
          start := segment.logicalStart
          count := segment.logicalCount
          bytes := tileBytes (slice ((rows plane.1).map (KvRow.part plane.2)) segment.logicalStart
            segment.logicalCount) } := by
  have pieces := length_tiles wide inside
  have cut : segmentWrites (segment, segmentPayload rows segment) =
      (segmentPlanes segment).mapIdx fun index plane =>
        { layer := plane.1
          isKey := plane.2
          start := segment.logicalStart
          count := segment.logicalCount
          bytes := slice (segmentPayload rows segment) (index * (segment.logicalCount * 256 * 2))
            (segment.logicalCount * 256 * 2) } := by
    rcases packed.role with role | ⟨role, -⟩ <;> simp only [segmentWrites, role]
  rw [cut]
  apply List.ext_getElem?
  intro index
  rw [List.getElem?_mapIdx, List.getElem?_map]
  cases found : (segmentPlanes segment)[index]? with
  | none => rfl
  | some plane =>
    have piece := @slice_flatten _ _ _ pieces index _ (by rw [List.getElem?_map, found]; rfl)
    rw [Option.map_some, Option.map_some, segmentPayload, List.flatMap_def, piece]

/-- Tiles of one range, one for each of some planes. -/
theorem planeTiles_map (planes : List (ℕ × Bool)) (distinct : planes.Nodup) (build : ℕ × Bool → TileWrite)
    (range : ℕ × ℕ) (own : ∀ plane, ((build plane).layer, (build plane).isKey) = plane)
    (same : ∀ plane, (build plane).range = range) :
    planeTiles layer isKey (planes.map build) = if (layer, isKey) ∈ planes then [range] else [] := by
  induction planes with
  | nil => rfl
  | cons plane planes ih =>
    have rest := ih (List.nodup_cons.mp distinct).2
    have owned := own plane
    rw [List.map_cons]
    by_cases here : plane = (layer, isKey)
    · have absent : (layer, isKey) ∉ planes := here ▸ (List.nodup_cons.mp distinct).1
      rw [if_neg absent] at rest
      rw [here] at owned
      obtain ⟨layers, keys⟩ := Prod.mk.inj owned
      have first := @MetalRemoteKvInstall.planeTiles_cons_own (build plane) (planes.map build)
      rw [here, layers, keys] at first
      rw [here, first, rest, same, if_pos List.mem_cons_self]
    · have other : ¬ (layer = (build plane).layer ∧ isKey = (build plane).isKey) := by
        rintro ⟨layers, keys⟩
        exact here (by rw [← owned, layers, keys])
      rw [MetalRemoteKvInstall.planeTiles_cons_other other, rest]
      have apart : (layer, isKey) ≠ plane := fun equal => here equal.symm
      simp only [List.mem_cons, apart, false_or]

theorem planeTiles_append (writes more : List TileWrite) :
    planeTiles layer isKey (writes ++ more) = planeTiles layer isKey writes ++ planeTiles layer isKey more := by
  rw [planeTiles, List.filter_append, List.map_append]
  rfl

theorem Packed.nodup_segmentPlanes (packed : Packed segment) : (segmentPlanes segment).Nodup := by
  rcases packed.role with role | ⟨role, head, member, layer⟩
  · simp only [segmentPlanes, role]
    exact nodup_nopePlanes
  · simp only [segmentPlanes, role, layer]
    exact nodup_groupPlanes head member

variable {segments : List Coordinates} {install next : MetalRemoteKvInstall}

/-- The tiles of one plane, over a list of segments. -/
theorem planeTiles_flatMap (packed : ∀ segment ∈ segments, Packed segment)
    (wide : ∀ layer, ∀ row ∈ rows layer, KvRow.Wide row 256)
    (inside : ∀ segment ∈ segments, ∀ layer, segment.logicalStart + segment.logicalCount ≤ (rows layer).length) :
    planeTiles layer isKey ((segments.map fun segment => (segment, segmentPayload rows segment)).flatMap segmentWrites) =
      segments.flatMap fun segment => if (layer, isKey) ∈ segmentPlanes segment then [segment.range] else [] := by
  induction segments with
  | nil => rfl
  | cons segment segments ih =>
    have first := packed segment List.mem_cons_self
    rw [List.map_cons, List.flatMap_cons, planeTiles_append,
      ih (fun other member => packed other (List.mem_cons_of_mem _ member))
        (fun other member => inside other (List.mem_cons_of_mem _ member)),
      first.segmentWrites_eq wide (inside segment List.mem_cons_self), List.flatMap_cons,
      planeTiles_map _ first.nodup_segmentPlanes _ segment.range (fun _ => rfl) fun _ => rfl]

/-- The sink accepts a packed segment where the engine accepts its tiles. -/
theorem Packed.segmentReady_eq (packed : Packed segment) (wide : ∀ layer, ∀ row ∈ rows layer, KvRow.Wide row 256)
    (inside : ∀ layer, segment.logicalStart + segment.logicalCount ≤ (rows layer).length)
    (wrote : install.writeTiles (segmentWrites (segment, segmentPayload rows segment)) = .ok next) :
    segmentReady install segment (segmentPayload rows segment) = .ok next := by
  have count := packed.count
  have small : segment.logicalCount * 256 * 2 * 26 < usizeBound := by
    rw [nopeTile] at count
    rw [usizeBound]
    omega
  have size (layers : List ℕ) (full : layers.length = 13) (planes : segmentPlanes segment = packedPlanesOf layers) :
      (segmentPayload rows segment).length = segment.logicalCount * 256 * 2 * (layers.length * 2) := by
    have total : (packedPlanesOf layers).length = layers.length * 2 := by
      rw [packedPlanesOf, List.length_flatMap]
      simp
    rw [segmentPayload, List.flatMap_def, length_flatten_of_sizes (length_tiles wide inside), List.length_map, planes,
      total, Nat.mul_comm]
  have tile (layers : List ℕ) (full : layers.length = 13) (planes : segmentPlanes segment = packedPlanesOf layers)
      (writes : segmentWrites (segment, segmentPayload rows segment) =
        packedWrites layers segment.logicalStart segment.logicalCount (segment.logicalCount * 256 * 2)
          (segmentPayload rows segment)) :
      installPackedTile install layers segment.logicalStart segment.logicalCount segment.elementsPerToken
        (segmentPayload rows segment) = .ok next := by
    have payload := size layers full planes
    rw [installPackedTile, if_neg (not_not.mpr packed.elementsPerToken), if_neg (not_not.mpr full),
      checkedMul_eq (by omega), Option.bind_some, checkedMul_eq (by omega)]
    dsimp only
    rw [checkedMul_eq (by rw [full]; omega)]
    dsimp only
    rw [if_neg (not_not.mpr payload), ← writes, wrote]
    rfl
  rw [segmentReady, if_neg (not_not.mpr packed.elementType)]
  rcases packed.role with role | ⟨role, head, member, layer⟩
  · simp only [role]
    apply tile nopeLayers (by decide)
    · simp only [segmentPlanes, role]
    · simp only [segmentWrites, segmentPlanes, role, packedWrites]
  · obtain ⟨group, grouped, full⟩ := swaGroup_of_mem member
    simp only [role, layer, grouped, bind, Except.bind]
    apply tile group full
    · simp only [segmentPlanes, role, layer, grouped]
    · simp only [segmentWrites, segmentPlanes, role, layer, grouped, packedWrites]

theorem installSegments_eq (packed : ∀ segment ∈ segments, Packed segment)
    (wide : ∀ layer, ∀ row ∈ rows layer, KvRow.Wide row 256)
    (inside : ∀ segment ∈ segments, ∀ layer, segment.logicalStart + segment.logicalCount ≤ (rows layer).length)
    (wrote : install.writeTiles ((segments.map fun segment => (segment, segmentPayload rows segment)).flatMap
      segmentWrites) = .ok next) :
    installSegments install (segments.map fun segment => (segment, segmentPayload rows segment)) = .ok next := by
  induction segments generalizing install with
  | nil =>
    cases wrote
    rfl
  | cons segment segments ih =>
    rw [List.map_cons, List.flatMap_cons, writeTiles_append] at wrote
    obtain ⟨between, first, rest⟩ := bind_eq_ok_iff.mp wrote
    have ready := (packed segment List.mem_cons_self).segmentReady_eq wide (inside segment List.mem_cons_self) first
    have later := ih (fun other member => packed other (List.mem_cons_of_mem _ member))
      (fun other member => inside other (List.mem_cons_of_mem _ member)) rest
    rw [List.map_cons, installSegments, List.foldlM_cons, ready]
    exact later

end Payload

section Span

variable {position prefixCut maxContext layer : ℕ} {isKey : Bool} {elementType : String} {elements : ℕ}

theorem flatMap_singleton_eq {α : Type} (items : List α) (chosen : Prop) [Decidable chosen] :
    (items.flatMap fun item => if chosen then [item] else []) = if chosen then items else [] := by
  split
  · exact List.flatMap_singleton' items
  · exact List.flatMap_eq_nil_iff.mpr fun _ _ => rfl

/-- The tiles that the schedule has for one plane. -/
theorem ranges_of_plane (inside : layer < nLayers) :
    ((targetCoordinates position prefixCut elementType elements).flatMap fun segment =>
      if (layer, isKey) ∈ segmentPlanes segment then [segment.range] else []) =
      if layer % 4 = 3 then tilesOf prefixCut position else swaTiles position prefixCut := by
  have nope : (((tilesOf prefixCut position).map (nopeTileOf elementType elements)).flatMap fun segment =>
      if (layer, isKey) ∈ segmentPlanes segment then [segment.range] else []) =
      if (layer, isKey) ∈ packedPlanesOf nopeLayers then tilesOf prefixCut position else [] := by
    rw [List.flatMap_map]
    exact flatMap_singleton_eq (tilesOf prefixCut position) ((layer, isKey) ∈ packedPlanesOf nopeLayers)
  have swa (head : ℕ) : (((swaTiles position prefixCut).map (swaTile elementType elements head)).flatMap fun segment =>
      if (layer, isKey) ∈ segmentPlanes segment then [segment.range] else []) =
      if (layer, isKey) ∈ groupPlanes head then swaTiles position prefixCut else [] := by
    rw [List.flatMap_map]
    exact flatMap_singleton_eq (swaTiles position prefixCut) ((layer, isKey) ∈ groupPlanes head)
  rw [targetCoordinates_eq, List.flatMap_append, nope, List.flatMap_assoc]
  simp only [swa]
  by_cases growing : layer % 4 = 3
  · have absent : (swaGroupHeads.flatMap fun head =>
        if (layer, isKey) ∈ groupPlanes head then swaTiles position prefixCut else []) = [] := by
      apply List.flatMap_eq_nil_iff.mpr
      intro head member
      rw [if_neg (mem_groupPlanes_of_nope layer inside growing head member isKey)]
    rw [absent, if_pos ((mem_nopePlanes layer inside isKey).mpr growing), if_pos growing, List.nil_append]
  · have own : (swaGroupHeads.flatMap fun head =>
        if (layer, isKey) ∈ groupPlanes head then swaTiles position prefixCut else []) =
        swaGroupHeads.flatMap fun head => if head = groupHeadOf layer then swaTiles position prefixCut else [] := by
      apply List.flatMap_congr
      intro head member
      simp only [mem_groupPlanes layer inside growing head member isKey]
    rw [own, flatMap_ite_eq nodup_swaGroupHeads (groupHeadOf_mem layer),
      if_neg fun present => growing ((mem_nopePlanes layer inside isKey).mp present), if_neg growing, List.append_nil]

/-- For a prompt within the session, the schedule's window is the plane's. -/
theorem chain_of_plane (layer : ℕ) (suffix : prefixCut < position) (fits : position ≤ maxContext) :
    Chain (max prefixCut (windowOrigin maxContext position layer)) position
      (if layer % 4 = 3 then tilesOf prefixCut position else swaTiles position prefixCut) := by
  by_cases growing : layer % 4 = 3
  · have origin : max prefixCut (windowOrigin maxContext position layer) = prefixCut := by
      rw [windowOrigin, kindOf, if_pos growing, planeCapacity]
      omega
    rw [if_pos growing, origin]
    exact (covers_tilesOf suffix).chain
  · have origin : max prefixCut (windowOrigin maxContext position layer) = max prefixCut (position - swaWindow) := by
      rw [windowOrigin, kindOf, if_neg growing, planeCapacity, museSwaWindow, swaWindow]
      omega
    rw [if_neg growing, origin]
    exact (covers_swaTiles suffix).chain

/-- Every segment of the target part is packed and ends within the prompt. -/
theorem packed_target (suffix : prefixCut < position) {segment : Coordinates}
    (member : segment ∈ targetCoordinates position prefixCut "f16_le" (256 * packedPlanes)) :
    Packed segment ∧ segment.logicalStart + segment.logicalCount ≤ position := by
  rw [targetCoordinates_eq, List.mem_append] at member
  rcases member with sliding | full
  · obtain ⟨head, present, member⟩ := List.mem_flatMap.mp sliding
    obtain ⟨chunk, among, rfl⟩ := List.mem_map.mp member
    obtain ⟨within, most⟩ := (covers_swaTiles suffix).mem_le among
    exact ⟨⟨rfl, rfl, most, .inr ⟨rfl, head, present, rfl⟩⟩, within⟩
  · obtain ⟨tile, among, rfl⟩ := List.mem_map.mp full
    obtain ⟨within, most⟩ := (covers_tilesOf suffix).mem_le among
    exact ⟨⟨rfl, rfl, most, .inl rfl⟩, within⟩

end Span

section Session

/-- The segments of a schedule, each with the prompt's rows. -/
def carrying (rows : ℕ → List KvRow) (schedule : TransferSchedule) : List (Coordinates × Bytes) :=
  schedule.segments.map fun segment => (segment.toCoordinates, segmentPayload rows segment.toCoordinates)

theorem carrying_spanSchedule (rows : ℕ → List KvRow) (position prefixCut : ℕ) (elementType : String) (elements : ℕ) :
    carrying rows (spanSchedule position prefixCut none elementType elements) =
      (targetCoordinates position prefixCut elementType (elements * packedPlanes)).map fun segment =>
        (segment, segmentPayload rows segment) := by
  have coordinates : (spanSchedule position prefixCut none elementType elements).segments.map (·.toCoordinates) =
      targetCoordinates position prefixCut elementType (elements * packedPlanes) := by
    rw [spanSchedule, numbered_append, List.map_append, map_toCoordinates_numberedFrom, map_toCoordinates_numberedFrom]
    exact List.append_nil _
  rw [← coordinates, List.map_map]
  rfl

variable {maxContext prefixCut : ℕ} {model : MetalMuseModel} {rowOf : ℕ → List Token → KvRow} {history prompt : List Token}
  {install : MetalRemoteKvInstall} {storage : ℕ → List Half × List Half}

/-- A begun generation, filled with the tiles of its span, is complete and holds the prompt. -/
theorem install_span (live : LiveSession model maxContext rowOf history)
    (memory : (history.length + max maxContext 32) * 512 < usizeBound) (fits : prompt.length ≤ maxContext)
    (suffix : prefixCut < prompt.length)
    (begun : Begun model rowOf prompt (fun layer => max prefixCut (windowOrigin maxContext prompt.length layer)) install) :
    ∃ filled, installSegments install (carrying (fun layer => kvRows rowOf layer prompt)
        (spanSchedule prompt.length prefixCut none "f16_le" 256)) = .ok filled ∧
      filled.validateComplete = .ok () ∧ filled.planes.length = museLayerCount ∧
      ∀ (layer : ℕ) (plane : MetalKvPlane), filled.planes[layer]? = some plane →
        plane.Built 256 model.headDim (kvRows rowOf layer prompt) ∧
        ∃ held, model.cache[layer]? = some held ∧ plane.capacity = held.capacity ∧ plane.headMajor = held.headMajor := by
  have wide := fun layer => wide_kvRows live.wide layer prompt
  have packed : ∀ segment ∈ targetCoordinates prompt.length prefixCut "f16_le" (256 * packedPlanes), Packed segment :=
    fun segment member => (packed_target suffix member).1
  have within : ∀ segment ∈ targetCoordinates prompt.length prefixCut "f16_le" (256 * packedPlanes), ∀ layer,
      segment.logicalStart + segment.logicalCount ≤ (kvRows rowOf layer prompt).length := by
    intro segment member layer
    rw [length_kvRows]
    exact (packed_target suffix member).2
  have writes : ∀ write ∈ ((targetCoordinates prompt.length prefixCut "f16_le" (256 * packedPlanes)).map fun segment =>
      (segment, segmentPayload (fun layer => kvRows rowOf layer prompt) segment)).flatMap segmentWrites,
      write.layer < install.planes.length ∧
        MetalRemoteKvInstall.Filling.Carries (fun layer => kvRows rowOf layer prompt) write := by
    intro write member
    obtain ⟨entry, among, cut⟩ := List.mem_flatMap.mp member
    obtain ⟨segment, present, rfl⟩ := List.mem_map.mp among
    rw [(packed segment present).segmentWrites_eq wide (within segment present)] at cut
    obtain ⟨plane, named, rfl⟩ := List.mem_map.mp cut
    refine ⟨?_, rfl⟩
    rw [begun.length]
    exact (packed segment present).layer_lt named
  have chains : ∀ layer < install.planes.length, ∀ isKey,
      Chain (max prefixCut (windowOrigin maxContext prompt.length layer)) prompt.length (planeTiles layer isKey
        (((targetCoordinates prompt.length prefixCut "f16_le" (256 * packedPlanes)).map fun segment =>
          (segment, segmentPayload (fun layer => kvRows rowOf layer prompt) segment)).flatMap segmentWrites)) ∧
        prompt.length ≤ (kvRows rowOf layer prompt).length := by
    intro layer inside isKey
    rw [begun.length] at inside
    rw [planeTiles_flatMap packed wide within, ranges_of_plane inside, length_kvRows]
    exact ⟨chain_of_plane layer suffix fits, le_refl _⟩
  obtain ⟨filled, wrote, filling, kept⟩ := MetalRemoteKvInstall.Filling.writeTiles begun.filling
    (fun write member => (writes write member).1) (fun write member => (writes write member).2)
    (fun layer _ => by rw [length_kvRows]; lia) chains
  have planes : ∀ (layer : ℕ) (plane : MetalKvPlane), filled.planes[layer]? = some plane →
      ∃ before, install.planes[layer]? = some before ∧ plane.capacity = before.capacity ∧
        plane.headMajor = before.headMajor ∧ plane.len = before.len := by
    intro layer plane found
    have inside : layer < install.planes.length := by
      rw [← kept.length]
      exact (List.getElem?_eq_some_iff.mp found).1
    obtain ⟨key, value, after⟩ := kept.planes layer _ (List.getElem?_eq_getElem inside)
    cases found.symm.trans after
    exact ⟨_, List.getElem?_eq_getElem inside, rfl, rfl, rfl⟩
  refine ⟨filled, ?_, ?_, kept.length.trans begun.length, ?_⟩
  · rw [carrying_spanSchedule]
    exact installSegments_eq packed wide within wrote
  · rw [MetalRemoteKvInstall.validateComplete_ok]
    intro layer plane found isKey
    obtain ⟨before, foundBefore, -, -, len⟩ := planes layer plane found
    obtain ⟨held, -, -, -, expected⟩ := begun.planes layer before foundBefore
    have filled' := filling.planes layer plane found
    have origin := filled'.originLogical_eq
    have short := filled'.len_eq
    rw [length_kvRows] at origin short
    rw [filling.at_cursor layer (List.getElem?_eq_some_iff.mp found).1 isKey, kept.expectedLen, expected]
    lia
  · intro layer plane found
    obtain ⟨before, foundBefore, capacity, headMajor, -⟩ := planes layer plane found
    obtain ⟨held, foundHeld, capacity', headMajor', -⟩ := begun.planes layer before foundBefore
    have filled' := filling.planes layer plane found
    rw [kept.kvDim, kept.headDim, begun.kvDim, begun.headDim] at filled'
    exact ⟨filled'.built fun _ => (length_kvRows ..).symm, held, foundHeld, capacity.trans capacity',
      headMajor.trans headMajor'⟩

/-- A committed generation received, on every plane, tiles that follow one another from where it began to the
end of the prompt. -/
theorem chain_of_commit (begun : Begun model rowOf prompt (fun layer => max prefixCut
      (windowOrigin maxContext prompt.length layer)) install)
    {segments : List (Coordinates × Bytes)} {next : MetalRemoteKvInstall}
    (installed : installSegments install segments = .ok next) {committed : MetalMuseModel}
    (commits : model.commitRemoteKvInstall next = .ok committed) (layer : ℕ) (inside : layer < museLayerCount)
    (isKey : Bool) :
    Chain (max prefixCut (windowOrigin maxContext prompt.length layer)) prompt.length
      (planeTiles layer isKey (segments.flatMap segmentWrites)) := by
  obtain ⟨-, kept, chains⟩ := MetalRemoteKvInstall.writeTiles_ok begun.filling.cursors (installSegments_ok installed)
  obtain ⟨⟨⟩, complete, -⟩ := bind_eq_ok_iff.mp commits
  rw [← begun.length] at inside
  have found := List.getElem?_eq_getElem inside
  obtain ⟨key, value, after⟩ := kept.planes layer _ found
  obtain ⟨held, -, -, -, expected⟩ := begun.planes layer _ found
  have ends := MetalRemoteKvInstall.validateComplete_ok.mp complete layer _ after isKey
  have filling := begun.filling.planes layer _ found
  have origin := filling.originLogical_eq
  have len := filling.len_eq
  rw [length_kvRows] at origin len
  have finish : next.planeCursor layer isKey = prompt.length := by
    rw [ends, kept.expectedLen, expected]
    change install.planes[layer].originLogical + install.planes[layer].len = prompt.length
    lia
  have chain := chains layer isKey
  rwa [begun.filling.at_cursor layer inside isKey, finish] at chain

/-- A delta install begins exactly while no live ring has overwritten a row it has to give. It then accepts the
tiles of its span and holds what a full install and the prompt's rows, appended one by one, hold; and nothing but
tiles that follow one another to the end of the prompt is ever committed. -/
theorem delta_install_equals_full {fullStorage : ℕ → List Half × List Half}
    (live : LiveSession model maxContext rowOf history)
    (memory : (history.length + max maxContext 32) * 512 < usizeBound) (fits : prompt.length ≤ maxContext)
    (allocated : Allocated model storage) (allocatedFull : Allocated model fullStorage) (positive : 0 < prefixCut)
    (aligned : prefixCut % prefixCutAlign = 0) (suffix : prefixCut < prompt.length) (held : prefixCut ≤ history.length)
    (same : history.take prefixCut = prompt.take prefixCut) :
    ((∃ install, model.beginRemoteKvInstallDelta storage prompt prefixCut = .ok install) ↔
      PrefixHeld model maxContext prompt.length prefixCut) ∧
    ∀ install, model.beginRemoteKvInstallDelta storage prompt prefixCut = .ok install →
      (∃ schedule filled fullSchedule fullInstall full,
        museScheduleSpan prompt.length prefixCut none = .ok (some schedule) ∧
        installSegments install (carrying (fun layer => kvRows rowOf layer prompt) schedule) = .ok filled ∧
        filled.validateComplete = .ok () ∧
        museSchedule prompt.length none = .ok fullSchedule ∧
        model.beginRemoteKvInstall fullStorage prompt = .ok fullInstall ∧
        installSegments fullInstall (carrying (fun layer => kvRows rowOf layer prompt) fullSchedule) = .ok full ∧
        full.validateComplete = .ok () ∧ filled.planes.length = museLayerCount ∧
        ∀ (layer : ℕ) (plane : MetalKvPlane), filled.planes[layer]? = some plane →
          (∃ other, full.planes[layer]? = some other ∧ plane.SameHeld 256 model.headDim other) ∧
          ∀ key value : List Half, key.length = plane.capacity * 256 → value.length = plane.capacity * 256 →
            ∃ appended, (MetalKvPlane.new key value plane.capacity plane.headMajor).appendEach 256 model.headDim layer 0
                (kvRows rowOf layer prompt) = .ok appended ∧ plane.SameHeld 256 model.headDim appended) ∧
      ∀ segments next committed, installSegments install segments = .ok next →
        model.commitRemoteKvInstall next = .ok committed → ∀ layer < museLayerCount, ∀ isKey,
          Chain (max prefixCut (windowOrigin maxContext prompt.length layer)) prompt.length
            (planeTiles layer isKey (segments.flatMap segmentWrites)) := by
  have begins := live.begin_delta memory fits allocated positive suffix held same
  refine ⟨⟨?_, ?_⟩, ?_⟩
  · rintro ⟨install, started⟩
    exact live.prefixHeld_of_begin_delta memory fits allocated positive suffix held started
  · intro present
    obtain ⟨install, started, -⟩ := begins present
    exact ⟨install, started⟩
  · intro install started
    have present := live.prefixHeld_of_begin_delta memory fits allocated positive suffix held started
    obtain ⟨other, again, begun⟩ := begins present
    cases started.symm.trans again
    refine ⟨?_, fun segments next committed installed commits => chain_of_commit begun installed commits⟩
    obtain ⟨fullInstall, fullStarted, fullBegun⟩ := live.begin_full memory fits allocatedFull (by lia : 0 < prompt.length)
    have fromZero : (windowOrigin maxContext prompt.length) =
        fun layer => max 0 (windowOrigin maxContext prompt.length layer) := by
      funext layer
      rw [Nat.zero_max]
    rw [fromZero] at fullBegun
    obtain ⟨filled, installed, complete, length, planes⟩ := install_span live memory fits suffix begun
    obtain ⟨full, fullInstalled, fullComplete, fullLength, fullPlanes⟩ :=
      install_span live memory fits (by lia : 0 < prompt.length) fullBegun
    have none_accepted : Accepted none := fun present absent => by cases absent
    have fullSchedule : museSchedule prompt.length none = .ok (spanSchedule prompt.length 0 none "f16_le" 256) := by
      rw [museSchedule, museScheduleFor, museScheduleSpanFor_eq (by lia) (by decide) (by decide) none_accepted]
    refine ⟨_, filled, _, fullInstall, full, museScheduleSpanFor_eq suffix aligned (by decide) none_accepted, installed,
      complete, fullSchedule, fullStarted, fullInstalled, fullComplete, length, ?_⟩
    intro layer plane found
    obtain ⟨built, live', foundLive, capacity, headMajor⟩ := planes layer plane found
    have inside : layer < full.planes.length := by
      rw [fullLength, ← length]
      exact (List.getElem?_eq_some_iff.mp found).1
    have foundFull := List.getElem?_eq_getElem inside
    obtain ⟨builtFull, other, foundOther, capacityFull, headMajorFull⟩ := fullPlanes layer _ foundFull
    cases foundLive.symm.trans foundOther
    constructor
    · exact ⟨_, foundFull, built.sameHeld builtFull (capacity.trans capacityFull.symm) (headMajor.trans headMajorFull.symm)⟩
    · intro key value keys values
      have empty := PlaneOp.built_new built.capacity_pos built.whole keys values plane.headMajor
      obtain ⟨appended, last⟩ := empty.appendEach layer (wide_kvRows live.wide layer prompt)
      exact ⟨_, appended, built.sameHeld last rfl rfl⟩

section Sample

/-- Rows that repeat their position. -/
def countingRow (_ : ℕ) (tokens : List Token) : KvRow :=
  ⟨List.replicate 256 (UInt16.ofNat tokens.length), List.replicate 256 (UInt16.ofNat tokens.length)⟩

def countingPlane (layer : ℕ) (history : List Token) : MetalKvPlane :=
  ((MetalKvPlane.new (List.replicate (planeCapacity 300 (kindOf layer) * 256) 0)
    (List.replicate (planeCapacity 300 (kindOf layer) * 256) 0) (planeCapacity 300 (kindOf layer))
      (layer % 4 = 3)).advance history.length).store 256 128 0 (kvRows countingRow layer history)

/-- A session of 300 tokens at most that has decoded `history`. -/
def countingSession (history : List Token) : MetalMuseModel where
  layerKinds := (List.range museLayerCount).map kindOf
  kvDim := 256
  headDim := 128
  cache := (List.range museLayerCount).map fun layer => countingPlane layer history
  nPast := history.length

def zeroStorage (layer : ℕ) : List Half × List Half :=
  (List.replicate (planeCapacity 300 (kindOf layer) * 256) 0, List.replicate (planeCapacity 300 (kindOf layer) * 256) 0)

theorem countingRow_wide (layer : ℕ) (tokens : List Token) : (countingRow layer tokens).Wide 256 :=
  ⟨List.length_replicate, List.length_replicate⟩

theorem countingSession_planes {history : List Token} {layer : ℕ} {plane : MetalKvPlane}
    (found : (countingSession history).cache[layer]? = some plane) : plane = countingPlane layer history := by
  change ((List.range museLayerCount).map fun layer => countingPlane layer history)[layer]? = some plane at found
  rw [List.getElem?_map] at found
  obtain ⟨index, here, rfl⟩ := Option.map_eq_some_iff.mp found
  obtain ⟨inside, same⟩ := List.getElem?_eq_some_iff.mp here
  rw [List.getElem_range] at same
  rw [same]

theorem countingSession_live (history : List Token) : LiveSession (countingSession history) 300 countingRow history where
  kinds := rfl
  kvDim := rfl
  length := by simp [countingSession]
  nPast := rfl
  wide := countingRow_wide
  planes := fun layer plane found => by
    obtain rfl := countingSession_planes found
    have room : 0 < planeCapacity 300 (kindOf layer) := by
      cases kindOf layer <;> decide
    have empty := @PlaneOp.built_new 256 128 _ room (by decide) (List.replicate (planeCapacity 300 (kindOf layer) * 256) 0)
      (List.replicate (planeCapacity 300 (kindOf layer) * 256) 0) List.length_replicate List.length_replicate
      (decide (layer % 4 = 3))
    have last := (empty.appendEach layer (wide_kvRows countingRow_wide layer history)).2
    rw [List.nil_append, List.length_nil, Nat.zero_add, length_kvRows] at last
    exact ⟨rfl, last⟩

theorem delta_install_equals_full_one_token :
    ∃ install schedule filled,
      (countingSession (List.replicate 256 7)).beginRemoteKvInstallDelta zeroStorage (List.replicate 257 7) 256 =
        .ok install ∧
      museScheduleSpan 257 256 none = .ok (some schedule) ∧
      installSegments install (carrying (fun layer => kvRows countingRow layer (List.replicate 257 7)) schedule) =
        .ok filled ∧
      filled.validateComplete = .ok () := by
  have live := countingSession_live (List.replicate 256 7)
  have allocated : Allocated (countingSession (List.replicate 256 7)) zeroStorage := by
    intro layer plane found
    rw [(live.planes layer plane found).1]
    exact ⟨List.length_replicate, List.length_replicate⟩
  have result := @delta_install_equals_full 300 256 _ countingRow _ (List.replicate 257 7) _ _ live
    (by rw [List.length_replicate]; decide) (by rw [List.length_replicate]; decide) allocated allocated (by decide)
    (by decide) (by rw [List.length_replicate]; decide) (by rw [List.length_replicate])
    (by rw [List.take_replicate, List.take_replicate]; rfl)
  have present : PrefixHeld (countingSession (List.replicate 256 7)) 300 (List.replicate 257 (7 : Token)).length 256 := by
    intro layer plane found _
    obtain ⟨capacity, built⟩ := live.planes layer plane found
    have origin := built.originLogical_eq_sub
    have most : 256 ≤ plane.capacity := by
      rw [capacity]
      cases kindOf layer <;> decide
    rw [length_kvRows, List.length_replicate] at origin
    omega
  obtain ⟨install, started⟩ := result.1.mpr present
  obtain ⟨⟨schedule, filled, -, -, -, span, installed, complete, -⟩, -⟩ := result.2 install started
  rw [List.length_replicate] at span
  exact ⟨install, schedule, filled, started, span, installed, complete⟩

end Sample

end Session

end Muser.Cluster
