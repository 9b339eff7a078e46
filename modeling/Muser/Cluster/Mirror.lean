import Muser.Cluster.Schedule

/-! # The sender's mirror of the schedule

Both sides push coordinates in one order and number them as they push. The sender's loops are
unrolled to that list of coordinates here; the live stream visits the same coordinates tile by tile.
-/

namespace Muser.Cluster

open Muser.Engine

section Numbers

/-- Coordinates numbered from `first` on, as the sender numbers them. -/
def indexedFrom (first : ℕ) (coordinates : List Coordinates) : List Intent :=
  (coordinates.zipIdx first).map fun entry => { entry.1 with sequence := entry.2 }

/-- Coordinates numbered from `first` on, as the receiver numbers them. -/
def numberedFrom (first : ℕ) (coordinates : List Coordinates) : List SegmentIntent :=
  (coordinates.zipIdx first).map fun entry => { entry.1 with sequence := UInt32.ofNat entry.2 }

/-- A segment with its number read as the sender writes it. -/
def SegmentIntent.intent (segment : SegmentIntent) : Intent :=
  { segment.toCoordinates with sequence := segment.sequence.toNat }

variable {coordinates : List Coordinates} {first : ℕ}

theorem numbered_append (left right : List Coordinates) :
    numbered (left ++ right) = numberedFrom 0 left ++ numberedFrom left.length right := by
  rw [numbered, List.zipIdx_append, List.map_append, Nat.zero_add]
  rfl

theorem length_numberedFrom : (numberedFrom first coordinates).length = coordinates.length := by
  simp [numberedFrom]

theorem map_toCoordinates_numberedFrom :
    (numberedFrom first coordinates).map (·.toCoordinates) = coordinates := by
  rw [numberedFrom, List.map_map]
  exact List.zipIdx_map_fst first coordinates

theorem map_toCoordinates_indexedFrom : (indexedFrom first coordinates).map (·.toCoordinates) = coordinates := by
  rw [indexedFrom, List.map_map]
  exact List.zipIdx_map_fst first coordinates

/-- The two numberings agree while the numbers fit. -/
theorem map_intent_numberedFrom (fits : first + coordinates.length ≤ u32Bound) :
    (numberedFrom first coordinates).map (·.intent) = indexedFrom first coordinates := by
  rw [numberedFrom, indexedFrom, List.map_map]
  apply List.map_congr_left
  intro entry member
  have bound := List.snd_lt_of_mem_zipIdx member
  have small : entry.2 < 2 ^ 32 := by
    rw [u32Bound] at fits
    omega
  simp only [Function.comp_apply, SegmentIntent.intent, UInt32.toNat_ofNat_of_lt' small]

theorem toCoordinates_mem {segment : SegmentIntent} (member : segment ∈ numberedFrom first coordinates) :
    segment.toCoordinates ∈ coordinates := by
  rw [← @map_toCoordinates_numberedFrom coordinates first]
  exact List.mem_map_of_mem member

/-- One component of the numbered segments, where all of them belong to it. -/
theorem filter_numberedFrom_of_forall {component : String}
    (own : ∀ entry ∈ coordinates, entry.componentId = component) :
    (numberedFrom first coordinates).filter (fun segment => segment.componentId = component) =
      numberedFrom first coordinates := by
  apply List.filter_eq_self.mpr
  intro segment member
  exact decide_eq_true (own _ (toCoordinates_mem member))

theorem filter_numberedFrom_of_forall_ne {component : String}
    (other : ∀ entry ∈ coordinates, entry.componentId ≠ component) :
    (numberedFrom first coordinates).filter (fun segment => segment.componentId = component) = [] := by
  apply List.filter_eq_nil_iff.mpr
  intro segment member
  simpa using other _ (toCoordinates_mem member)

/-- Pushing one by one numbers from the length already there. -/
theorem foldl_push (output : List Intent) :
    coordinates.foldl
        (fun output entry => output ++ [{ entry with sequence := first + output.length }]) output =
      output ++ indexedFrom (first + output.length) coordinates := by
  induction coordinates generalizing output with
  | nil => simp [indexedFrom]
  | cons entry rest ih =>
    rw [List.foldl_cons, ih]
    simp [indexedFrom, Nat.add_assoc]

theorem foldl_appendIntent (output : List Intent) :
    coordinates.foldl appendIntent output = output ++ indexedFrom output.length coordinates := by
  have pushed := @foldl_push coordinates 0 output
  simp only [Nat.zero_add] at pushed
  exact pushed

end Numbers

section Groups

theorem swaGroupHeads_eq : swaGroupHeads = [0, 17, 34] := by decide

/-- The loop over the groups visits the heads. -/
theorem flatMap_groups {α : Type} (f : ℕ → List α) :
    ((rangeStep 0 swaLayers.length swaGroupSize).flatMap fun groupStart => f (swaLayers.getD groupStart 0)) =
      swaGroupHeads.flatMap f := by
  rw [swaGroupHeads, List.flatMap_map]

end Groups

variable {position prefixCut : ℕ}

theorem foldl_appendGroupTile (swaStart head : ℕ) (tiles : List (ℕ × ℕ)) (output : List Intent) :
    tiles.foldl (appendGroupTile swaStart head) output =
      ((tiles.filterMap (swaChunk swaStart)).map (swaTile "f16_le" packedElements head)).foldl appendIntent output := by
  rw [List.foldl_map, List.foldl_filterMap]
  congr 1
  funext output tile
  rw [appendGroupTile]
  cases swaChunk swaStart tile <;> rfl

/-- The sender's loops push the coordinates of the target part. -/
theorem museIntents_eq (suffix : prefixCut < position) :
    museIntents position prefixCut = .ok (indexedFrom 0 (targetCoordinates position prefixCut "f16_le" packedElements)) := by
  have nonempty : ¬ position < 1 := by omega
  have proper : ¬ position ≤ prefixCut := by omega
  have whole : ¬ swaLayers.length % swaGroupSize ≠ 0 := by decide
  have tiles : ((rangeStep prefixCut position nopeTile).map fun start => (start, min nopeTile (position - start))) =
      tilesOf prefixCut position := by
    simp only [tilesOf, Nat.min_comm]
  simp only [museIntents, nonempty, proper, whole, if_false, tiles, foldl_appendGroupTile]
  rw [← List.foldl_flatMap, ← List.foldl_map, ← List.foldl_append, foldl_appendIntent, List.nil_append,
    List.length_nil, flatMap_groups fun head =>
      ((tilesOf prefixCut position).filterMap (swaChunk (max prefixCut (position - swaWindow)))).map
        (swaTile "f16_le" packedElements head), max_comm]
  rfl

theorem dflashIntents_eq (geometry : DFlashContextGeometry) (sequence : ℕ)
    (ranges : dflashRanges position geometry.sinkSize geometry.windowSize =
      if position ≤ geometry.sinkSize + geometry.windowSize then [(0, position)]
      else [(0, geometry.sinkSize), (position - geometry.windowSize, geometry.windowSize)]) :
    dflashIntents position geometry.layers geometry.elementsPerToken geometry.sinkSize geometry.windowSize sequence =
      indexedFrom sequence (dflashCoordinates position geometry) := by
  have push (layer : ℕ) (role : SegmentRoleV2) (output : List Intent) (spans : List (ℕ × ℕ)) :
      spans.foldl
          (fun output range =>
            output ++ [{ dflashSegment geometry.elementsPerToken layer role range with
              sequence := sequence + output.length }])
          output =
        (spans.map (dflashSegment geometry.elementsPerToken layer role)).foldl
          (fun output entry => output ++ [{ entry with sequence := sequence + output.length }]) output := by
    rw [List.foldl_map]
  simp only [dflashIntents, ← ranges, push]
  simp only [← List.foldl_flatMap]
  rw [foldl_push, List.nil_append, List.length_nil, Nat.add_zero]
  rfl

section Stream

/-- Two nested loops visit the same pairs in either order. -/
theorem flatMap_map_perm {α β γ : Type} (outer : List α) (inner : List β) (f : α → β → γ) :
    (outer.flatMap fun left => inner.map (f left)).Perm (inner.flatMap fun right => outer.map fun left => f left right) := by
  induction outer with
  | nil => simp
  | cons left rest ih =>
    rw [List.flatMap_cons]
    exact (ih.append_left _).trans (List.map_append_flatMap_perm inner (f left) _)

/-- What the live stream pushes for one tile. -/
def streamCoordinates (swaStart : ℕ) (tile : ℕ × ℕ) : List Coordinates :=
  nopeTileOf "f16_le" packedElements tile ::
    (swaChunk swaStart tile).toList.flatMap fun chunk =>
      swaGroupHeads.map fun head => swaTile "f16_le" packedElements head chunk

theorem appendStreamTile_eq (swaStart : ℕ) (output : List Intent) (tile : ℕ × ℕ) :
    appendStreamTile swaStart output tile = (streamCoordinates swaStart tile).foldl appendIntent output := by
  simp only [streamCoordinates, List.foldl_cons, appendStreamTile]
  cases swaChunk swaStart tile with
  | none => rfl
  | some chunk => simp [swaGroupHeads, List.foldl_map]

theorem tileMajorFifoIntents_eq (nonempty : 0 < position) :
    tileMajorFifoIntents position =
      .ok (indexedFrom 0 ((tilesOf 0 position).flatMap (streamCoordinates (position - swaWindow)))) := by
  have guarded : ¬ position < 1 := by omega
  simp only [tileMajorFifoIntents, guarded, if_false, Nat.zero_max, appendStreamTile_eq]
  rw [← List.foldl_flatMap, foldl_appendIntent, List.nil_append, List.length_nil, tilesOf, List.flatMap_map]
  simp only [Nat.min_comm]

/-- The live stream reorders the target part. -/
theorem streamCoordinates_perm :
    ((tilesOf 0 position).flatMap (streamCoordinates (position - swaWindow))).Perm
      (targetCoordinates position 0 "f16_le" packedElements) := by
  have chunks : (swaGroupHeads.flatMap fun head =>
        ((tilesOf 0 position).filterMap (swaChunk (position - swaWindow))).map (swaTile "f16_le" packedElements head)).Perm
      ((tilesOf 0 position).flatMap fun tile =>
        (swaChunk (position - swaWindow) tile).toList.flatMap fun chunk =>
          swaGroupHeads.map fun head => swaTile "f16_le" packedElements head chunk) := by
    apply (flatMap_map_perm swaGroupHeads _ fun head => swaTile "f16_le" packedElements head).trans
    rw [List.filterMap_eq_flatMap_toList, List.flatMap_assoc]
  have visits := List.map_append_flatMap_perm (tilesOf 0 position) (nopeTileOf "f16_le" packedElements) fun tile =>
    (swaChunk (position - swaWindow) tile).toList.flatMap fun chunk =>
      swaGroupHeads.map fun head => swaTile "f16_le" packedElements head chunk
  rw [targetCoordinates, Nat.max_zero]
  exact visits.symm.trans (List.perm_append_comm.trans (chunks.symm.append_right _))

end Stream

end Muser.Cluster
