import Muser.Cluster.Mirror
import Mathlib.Data.List.Perm.Subperm

/-! # The schedule covers the handoff

Every plane receives the rows it lacks exactly once: the tiles follow one another from the cut, or
from the window, to the end of the prompt. The sender and the sink derive the same segments, as long
as they number fewer than `2 ^ 32` and the draft's sink and window fit a machine word.
-/

namespace Muser.Cluster

open Muser.Engine

variable {position prefixCut : ℕ}

section Parts

/-- The segments of one component, in schedule order. -/
def TransferSchedule.part (schedule : TransferSchedule) (component : String) : List SegmentIntent :=
  schedule.segments.filter fun segment => segment.componentId = component

/-- The ranges that the schedule sends for one role and layer. -/
def TransferSchedule.ranges (schedule : TransferSchedule) (role : SegmentRoleV2) (layer : Option ℕ) : List (ℕ × ℕ) :=
  ((schedule.segments.map (·.toCoordinates)).filter fun entry => entry.role = role ∧ entry.layer = layer).map (·.range)

def Piece.range (piece : Piece) : ℕ × ℕ := (piece.start, piece.count)

/-- The schedule covers the handoff, and the sender and the sink agree with it. -/
structure ExactCover (position prefixCut : ℕ) (geometry : Option DFlashContextGeometry) (elementType : String)
    (elementsPerToken : ℕ) (schedule : TransferSchedule) : Prop where
  sequence : ∀ index (inside : index < schedule.segments.length), schedule.segments[index].sequence.toNat = index
  parts : schedule.segments = schedule.part "target" ++ schedule.part "dflash"
  nope : Covers nopeTile prefixCut position (schedule.ranges .nopeTile none)
  swa : ∀ head ∈ swaGroupHeads,
    Covers nopeTile (max prefixCut (position - swaWindow)) position (schedule.ranges .swaTile (some head))
  heads : ∀ segment ∈ schedule.part "target",
    segment.role = .nopeTile ∧ segment.layer = none ∨
      segment.role = .swaTile ∧ ∃ head ∈ swaGroupHeads, segment.layer = some head
  groups : swaGroupHeads.length = 3 ∧ swaLayers.length = 39 ∧ swaLayers.Nodup ∧
    ∃ expanded, swaGroupHeads.mapM swaGroup = .ok expanded ∧ expanded.flatten = swaLayers
  sender : elementType = "f16_le" → elementsPerToken = 256 →
    museIntents position prefixCut = .ok ((schedule.part "target").map (·.intent))
  full : prefixCut = 0 → museScheduleFor position geometry elementType elementsPerToken = .ok schedule
  absent : geometry = none → schedule.part "dflash" = []
  draft : ∀ present, geometry = some present →
    (schedule.part "dflash").map (·.intent) =
      dflashIntents position present.layers present.elementsPerToken present.sinkSize present.windowSize
        (schedule.part "target").length
  joined : ∀ present, geometry = some present → ∀ layer < present.layers,
    ∀ role ∈ [SegmentRoleV2.dflashKey, .dflashValue], ∀ pieces : List Piece,
      (∃ bytes, joinDflash pieces position present.sinkSize present.windowSize = .ok bytes) ↔
        (pieces.map Piece.range).Perm (schedule.ranges role (some layer))
  stream : prefixCut = 0 → elementType = "f16_le" → elementsPerToken = 256 →
    ∃ intents, tileMajorFifoIntents position = .ok intents ∧
      (intents.map (·.toCoordinates)).Perm ((schedule.part "target").map (·.toCoordinates))

/-- How many segments the draft context takes. -/
def draftSegmentCount (position : ℕ) : Option DFlashContextGeometry → ℕ
  | none => 0
  | some geometry =>
    geometry.layers * (2 * if position ≤ wrappingAdd geometry.sinkSize geometry.windowSize then 1 else 2)

/-- How many segments a span takes: three groups over the tiles of the window, and every tile once. -/
def segmentCount (position prefixCut : ℕ) (geometry : Option DFlashContextGeometry) : ℕ :=
  let tiles := (position - prefixCut + nopeTile - 1) / nopeTile
  3 * (tiles - (max prefixCut (position - swaWindow) - prefixCut) / nopeTile) + tiles +
    draftSegmentCount position geometry

/-- The sum of sink and window does not wrap, or the wrapped sum still holds the whole prompt. -/
def SpansFit (position : ℕ) (geometry : Option DFlashContextGeometry) : Prop :=
  ∀ present, geometry = some present → present.sinkSize + present.windowSize < usizeBound ∨
    position ≤ wrappingAdd present.sinkSize present.windowSize

end Parts

section Selection

/-- Of a list without duplicates, one element contributes. -/
theorem flatMap_ite_eq {α β : Type} [DecidableEq α] {items : List α} (distinct : items.Nodup) {item : α}
    (member : item ∈ items) (chosen : List β) :
    (items.flatMap fun other => if other = item then chosen else []) = chosen := by
  induction items with
  | nil => simp at member
  | cons first rest ih =>
    rw [List.flatMap_cons]
    by_cases same : first = item
    · subst same
      have others : (rest.flatMap fun other => if other = first then chosen else []) = [] := by
        apply List.flatMap_eq_nil_iff.mpr
        intro other present
        have differs : other ≠ first := fun equal => (List.nodup_cons.mp distinct).1 (equal ▸ present)
        rw [if_neg differs]
      rw [if_pos rfl, others, List.append_nil]
    · have later : item ∈ rest := (List.mem_cons.mp member).resolve_left fun equal => same equal.symm
      rw [if_neg same, List.nil_append]
      exact ih (List.nodup_cons.mp distinct).2 later

/-- The ranges of one role and layer among coordinates. -/
def selected (role : SegmentRoleV2) (layer : Option ℕ) (coordinates : List Coordinates) : List (ℕ × ℕ) :=
  (coordinates.filter fun entry => entry.role = role ∧ entry.layer = layer).map (·.range)

variable {role : SegmentRoleV2} {layer : Option ℕ}

theorem selected_append (left right : List Coordinates) :
    selected role layer (left ++ right) = selected role layer left ++ selected role layer right := by
  simp only [selected, List.filter_append, List.map_append]

theorem selected_flatMap {α : Type} (items : List α) (f : α → List Coordinates) :
    selected role layer (items.flatMap f) = items.flatMap fun item => selected role layer (f item) := by
  simp only [selected, List.filter_flatMap, List.map_flatMap]

/-- Coordinates built alike over a list of ranges are all selected, or none. -/
theorem selected_map (ranges : List (ℕ × ℕ)) (build : ℕ × ℕ → Coordinates) (own : SegmentRoleV2) (ownLayer : Option ℕ)
    (roles : ∀ range, (build range).role = own) (layers : ∀ range, (build range).layer = ownLayer)
    (kept : ∀ range, (build range).range = range) :
    selected role layer (ranges.map build) = if own = role ∧ ownLayer = layer then ranges else [] := by
  by_cases matching : own = role ∧ ownLayer = layer
  · have all : (ranges.map build).filter (fun entry => entry.role = role ∧ entry.layer = layer) = ranges.map build := by
      apply List.filter_eq_self.mpr
      intro entry member
      obtain ⟨range, -, rfl⟩ := List.mem_map.mp member
      simpa only [roles, layers, decide_eq_true_eq] using matching
    rw [if_pos matching, selected, all, List.map_map]
    exact (List.map_congr_left fun range _ => kept range).trans (List.map_id ranges)
  · have nothing : (ranges.map build).filter (fun entry => entry.role = role ∧ entry.layer = layer) = [] := by
      apply List.filter_eq_nil_iff.mpr
      intro entry member
      obtain ⟨range, -, rfl⟩ := List.mem_map.mp member
      simpa only [roles, layers, decide_eq_true_eq] using matching
    rw [if_neg matching, selected, nothing]
    rfl

end Selection

section Target

variable {elementType : String} {elements : ℕ}

/-- The tiles of the sliding layers. -/
def swaTiles (position prefixCut : ℕ) : List (ℕ × ℕ) :=
  (tilesOf prefixCut position).filterMap (swaChunk (max (position - swaWindow) prefixCut))

theorem nodup_swaGroupHeads : swaGroupHeads.Nodup := by decide

theorem targetCoordinates_eq :
    targetCoordinates position prefixCut elementType elements =
      (swaGroupHeads.flatMap fun head => (swaTiles position prefixCut).map (swaTile elementType elements head)) ++
        (tilesOf prefixCut position).map (nopeTileOf elementType elements) := rfl

theorem selected_target_nope :
    selected .nopeTile none (targetCoordinates position prefixCut elementType elements) = tilesOf prefixCut position := by
  have sliding (head : ℕ) : selected .nopeTile none ((swaTiles position prefixCut).map (swaTile elementType elements head)) =
      [] :=
    selected_map _ _ .swaTile (some head) (fun _ => rfl) (fun _ => rfl) fun _ => rfl
  have full : selected .nopeTile none ((tilesOf prefixCut position).map (nopeTileOf elementType elements)) =
      tilesOf prefixCut position :=
    selected_map _ _ .nopeTile none (fun _ => rfl) (fun _ => rfl) fun _ => rfl
  have skipped := List.flatMap_eq_nil_iff.mpr fun head (_ : head ∈ swaGroupHeads) => sliding head
  rw [targetCoordinates_eq, selected_append, selected_flatMap, full, skipped, List.nil_append]

theorem selected_target_swa {head : ℕ} (member : head ∈ swaGroupHeads) :
    selected .swaTile (some head) (targetCoordinates position prefixCut elementType elements) =
      swaTiles position prefixCut := by
  have sliding (other : ℕ) : selected .swaTile (some head)
      ((swaTiles position prefixCut).map (swaTile elementType elements other)) =
      if other = head then swaTiles position prefixCut else [] := by
    rw [selected_map _ _ .swaTile (some other) (fun _ => rfl) (fun _ => rfl) fun _ => rfl]
    simp
  have full : selected .swaTile (some head) ((tilesOf prefixCut position).map (nopeTileOf elementType elements)) = [] :=
    selected_map _ _ .nopeTile none (fun _ => rfl) (fun _ => rfl) fun _ => rfl
  rw [targetCoordinates_eq, selected_append, selected_flatMap, full, List.append_nil]
  simp only [sliding]
  exact flatMap_ite_eq nodup_swaGroupHeads member _

theorem mem_targetCoordinates {entry : Coordinates}
    (member : entry ∈ targetCoordinates position prefixCut elementType elements) :
    entry.componentId = "target" ∧ (entry.role = .nopeTile ∧ entry.layer = none ∨
      entry.role = .swaTile ∧ ∃ head ∈ swaGroupHeads, entry.layer = some head) := by
  rw [targetCoordinates_eq, List.mem_append] at member
  rcases member with sliding | full
  · obtain ⟨head, present, member⟩ := List.mem_flatMap.mp sliding
    obtain ⟨chunk, -, rfl⟩ := List.mem_map.mp member
    exact ⟨rfl, .inr ⟨rfl, head, present, rfl⟩⟩
  · obtain ⟨tile, -, rfl⟩ := List.mem_map.mp full
    exact ⟨rfl, .inl ⟨rfl, rfl⟩⟩

theorem covers_tilesOf (suffix : prefixCut < position) :
    Covers nopeTile prefixCut position (tilesOf prefixCut position) :=
  covers_stepTiles (by decide) suffix.le

theorem covers_swaTiles (suffix : prefixCut < position) :
    Covers nopeTile (max prefixCut (position - swaWindow)) position (swaTiles position prefixCut) := by
  have clipped := (covers_tilesOf suffix).clip (show max (position - swaWindow) prefixCut ≤ position by lia)
  have start : max prefixCut (max (position - swaWindow) prefixCut) = max prefixCut (position - swaWindow) := by lia
  rw [start] at clipped
  exact clipped

theorem length_targetCoordinates (suffix : prefixCut < position) :
    (targetCoordinates position prefixCut elementType elements).length = segmentCount position prefixCut none := by
  have windowed : 0 < swaWindow := by decide
  have clipped := @length_filterMap_clipTile prefixCut position nopeTile (by decide)
    (max (position - swaWindow) prefixCut) (by lia)
  have sliding : (swaTiles position prefixCut).length =
      (position - prefixCut + nopeTile - 1) / nopeTile - (max prefixCut (position - swaWindow) - prefixCut) / nopeTile := by
    rw [max_comm prefixCut]
    exact clipped
  have tiles : (tilesOf prefixCut position).length = (position - prefixCut + nopeTile - 1) / nopeTile := by
    rw [tilesOf, List.length_map, length_rangeStep]
  rw [targetCoordinates_eq, List.length_append, List.length_map, tiles, swaGroupHeads_eq]
  simp only [List.flatMap_cons, List.flatMap_nil, List.length_append, List.length_map, sliding, List.length_nil,
    segmentCount, draftSegmentCount]
  lia

end Target

section Draft

variable {geometry : DFlashContextGeometry}

/-- The ranges of the draft context, the sums exact. -/
def exactRanges (position sink window : ℕ) : List (ℕ × ℕ) :=
  if position ≤ sink + window then [(0, position)] else [(0, sink), (position - window, window)]

/-- While the sum fits, or holds the prompt even so, nothing wraps. -/
theorem dflashRanges_eq {sink window : ℕ} (word : position < usizeBound)
    (fits : sink + window < usizeBound ∨ position ≤ wrappingAdd sink window) :
    dflashRanges position sink window = exactRanges position sink window := by
  by_cases small : sink + window < usizeBound
  · have sum : wrappingAdd sink window = sink + window := Nat.mod_eq_of_lt small
    rw [dflashRanges, exactRanges, sum]
    by_cases whole : position ≤ sink + window
    · rw [if_pos whole, if_pos whole]
    · have back : position + (usizeBound - window) = position - window + usizeBound := by lia
      have start : wrappingSub position window = position - window := by
        rw [wrappingSub, back, Nat.add_mod_right, Nat.mod_eq_of_lt (by lia)]
      rw [if_neg whole, if_neg whole, start]
  · have wrapped := fits.resolve_left small
    have whole : position ≤ sink + window := wrapped.trans (Nat.mod_le _ _)
    rw [dflashRanges, exactRanges, if_pos wrapped, if_pos whole]

theorem length_dflashRanges (sink window : ℕ) :
    (dflashRanges position sink window).length = if position ≤ wrappingAdd sink window then 1 else 2 := by
  rw [dflashRanges]
  split <;> rfl

theorem length_dflashCoordinates :
    (dflashCoordinates position geometry).length = draftSegmentCount position (some geometry) := by
  have layer (index : ℕ) : ([SegmentRoleV2.dflashKey, .dflashValue].flatMap fun role =>
      (dflashRanges position geometry.sinkSize geometry.windowSize).map
        (dflashSegment geometry.elementsPerToken index role)).length =
      2 * if position ≤ wrappingAdd geometry.sinkSize geometry.windowSize then 1 else 2 := by
    simp only [List.flatMap_cons, List.flatMap_nil, List.length_append, List.length_map, List.length_nil,
      length_dflashRanges]
    lia
  rw [dflashCoordinates, List.length_flatMap]
  simp only [layer, List.map_const', List.sum_replicate_nat, List.length_range, draftSegmentCount]

theorem mem_dflashCoordinates {entry : Coordinates} (member : entry ∈ dflashCoordinates position geometry) :
    entry.componentId = "dflash" ∧ (entry.role = .dflashKey ∨ entry.role = .dflashValue) := by
  obtain ⟨layer, -, member⟩ := List.mem_flatMap.mp member
  obtain ⟨role, present, member⟩ := List.mem_flatMap.mp member
  obtain ⟨range, -, rfl⟩ := List.mem_map.mp member
  have plane : role = .dflashKey ∨ role = .dflashValue := by simpa using present
  exact ⟨rfl, plane⟩

theorem selected_dflash {layer : ℕ} (inside : layer < geometry.layers) {role : SegmentRoleV2}
    (plane : role ∈ [SegmentRoleV2.dflashKey, .dflashValue]) :
    selected role (some layer) (dflashCoordinates position geometry) =
      dflashRanges position geometry.sinkSize geometry.windowSize := by
  have each (other : ℕ) (own : SegmentRoleV2) : selected role (some layer)
      ((dflashRanges position geometry.sinkSize geometry.windowSize).map
        (dflashSegment geometry.elementsPerToken other own)) =
      if own = role then
        if other = layer then dflashRanges position geometry.sinkSize geometry.windowSize else []
      else [] := by
    rw [selected_map _ _ own (some other) (fun _ => rfl) (fun _ => rfl) fun _ => rfl]
    by_cases same : own = role <;> by_cases equal : other = layer <;> simp [same, equal]
  have rows (other : ℕ) : selected role (some layer)
      ([SegmentRoleV2.dflashKey, .dflashValue].flatMap fun own =>
        (dflashRanges position geometry.sinkSize geometry.windowSize).map
          (dflashSegment geometry.elementsPerToken other own)) =
      if other = layer then dflashRanges position geometry.sinkSize geometry.windowSize else [] := by
    rw [selected_flatMap]
    simp only [each]
    exact flatMap_ite_eq (by decide) plane _
  rw [dflashCoordinates, selected_flatMap]
  simp only [rows]
  exact flatMap_ite_eq List.nodup_range (List.mem_range.mpr inside) _

end Draft

section Join

variable {sink window : ℕ}

/-- Pieces are joined when their ranges are the expected ones, in order. -/
theorem joinPieces_ok {pieces : List Piece} {expected : List (ℕ × ℕ)} (same : pieces.length = expected.length)
    (bytes : List UInt8) :
    (∃ joined, joinPieces sink window pieces expected bytes = .ok joined) ↔ pieces.map Piece.range = expected := by
  induction pieces generalizing expected bytes with
  | nil =>
    cases expected with
    | nil => simp [joinPieces]
    | cons range rest => simp at same
  | cons piece rest ih =>
    cases expected with
    | nil => simp at same
    | cons range ranges =>
      obtain ⟨start, count⟩ := range
      rw [List.length_cons, List.length_cons] at same
      by_cases differs : piece.start ≠ start ∨ piece.count ≠ count
      · have refused : ¬ (piece.start = start ∧ piece.count = count) := by lia
        simp [joinPieces, differs, Piece.range, refused]
      · have equal : piece.start = start ∧ piece.count = count := by lia
        have kept : piece.range = (start, count) := Prod.ext equal.1 equal.2
        rw [joinPieces, if_neg differs, ih (Nat.succ.inj same), List.map_cons, kept, List.cons.injEq]
        exact (and_iff_right rfl).symm

/-- Ranges with distinct starts, in order of their starts. -/
theorem sorted_exactRanges {left right : ℕ × ℕ} (positive : 0 < sink)
    (first : left ∈ exactRanges position sink window) (second : right ∈ exactRanges position sink window)
    (same : left.1 = right.1) : left = right := by
  by_cases whole : position ≤ sink + window
  · simp only [exactRanges, whole, if_true, List.mem_singleton] at first second
    rw [first, second]
  · simp only [exactRanges, whole, if_false, List.mem_cons, List.not_mem_nil, or_false] at first second
    rcases first with rfl | rfl <;> rcases second with rfl | rfl
    · rfl
    · have apart : 0 = position - window := same
      lia
    · have apart : position - window = 0 := same
      lia
    · rfl

theorem pairwise_exactRanges :
    (exactRanges position sink window).Pairwise fun left right => left.1 ≤ right.1 := by
  rw [exactRanges]
  split <;> simp

/-- The sink accepts the pieces of a plane in any order, and no other pieces. -/
theorem joinDflash_ok (positive : 0 < sink)
    (ranges : dflashRanges position sink window = exactRanges position sink window) (pieces : List Piece) :
    (∃ bytes, joinDflash pieces position sink window = .ok bytes) ↔
      (pieces.map Piece.range).Perm (dflashRanges position sink window) := by
  have reordered := List.mergeSort_perm pieces fun left right => decide (left.start ≤ right.start)
  have sorted : (pieces.mergeSort fun left right => decide (left.start ≤ right.start)).Pairwise
      fun left right => left.start ≤ right.start := by
    have pairs := @List.pairwise_mergeSort _ (fun left right : Piece => decide (left.start ≤ right.start))
      (fun a b c first second => by simp only [decide_eq_true_eq] at *; lia)
      (fun a b => by simp only [Bool.or_eq_true, decide_eq_true_eq]; lia) pieces
    exact pairs.imp fun holds => of_decide_eq_true holds
  rw [joinDflash]
  split
  · rename_i differs
    constructor
    · rintro ⟨bytes, impossible⟩
      cases impossible
    · intro arrived
      refine absurd ?_ differs
      rw [reordered.length_eq, ← arrived.length_eq, List.length_map]
  · rename_i same
    rw [joinPieces_ok (not_not.mp same)]
    constructor
    · intro equal
      rw [← equal]
      exact (reordered.map Piece.range).symm
    · intro arrived
      have moved := (reordered.map Piece.range).trans arrived
      rw [ranges] at moved ⊢
      have ordered : ((pieces.mergeSort fun left right => decide (left.start ≤ right.start)).map Piece.range).Pairwise
          fun left right => left.1 ≤ right.1 := List.pairwise_map.mpr sorted
      apply moved.eq_of_pairwise ?_ ordered pairwise_exactRanges
      intro left right first second below above
      exact sorted_exactRanges positive (moved.mem_iff.mp first) second (Nat.le_antisymm below above)

end Join

section Schedule

variable {geometry : Option DFlashContextGeometry} {elementType : String} {elements : ℕ}

/-- The coordinates of the draft context of an accepted geometry. -/
def draftCoordinates (position : ℕ) : Option DFlashContextGeometry → List Coordinates
  | none => []
  | some geometry => dflashCoordinates position geometry

/-- What the receiver checks of a geometry. -/
def Accepted (geometry : Option DFlashContextGeometry) : Prop :=
  ∀ present, geometry = some present →
    present.validate = .ok () ∧ present.layers < u32Bound ∧ present.elementsPerToken < u32Bound

/-- The schedule of an accepted span. -/
def spanSchedule (position prefixCut : ℕ) (geometry : Option DFlashContextGeometry) (elementType : String)
    (elements : ℕ) : TransferSchedule where
  segments := numbered (targetCoordinates position prefixCut elementType (elements * packedPlanes) ++
    draftCoordinates position geometry)
  firstTileCompleteAfterTokens := min (saturatingAdd prefixCut nopeTile) position

theorem dflashPart_eq (accepted : Accepted geometry) :
    dflashPart position geometry = some (draftCoordinates position geometry) := by
  cases geometry with
  | none => rfl
  | some present =>
    obtain ⟨valid, layers, width⟩ := accepted present rfl
    simp only [dflashPart, valid, layers, width, and_self, if_true, draftCoordinates]

theorem museScheduleSpanFor_eq (suffix : prefixCut < position) (aligned : prefixCut % prefixCutAlign = 0)
    (width : elements * packedPlanes < u32Bound) (accepted : Accepted geometry) :
    museScheduleSpanFor position prefixCut geometry elementType elements =
      .ok (some (spanSchedule position prefixCut geometry elementType elements)) := by
  have proper : ¬ (position = 0 ∨ position ≤ prefixCut ∨ prefixCut % prefixCutAlign ≠ 0) := by lia
  rw [museScheduleSpanFor, if_neg proper, if_neg (Nat.not_le.mpr width), dflashPart_eq accepted]
  rfl

theorem length_draftCoordinates : (draftCoordinates position geometry).length = draftSegmentCount position geometry := by
  cases geometry with
  | none => rfl
  | some present => exact length_dflashCoordinates

theorem mem_draftCoordinates {entry : Coordinates} (member : entry ∈ draftCoordinates position geometry) :
    entry.componentId = "dflash" ∧ (entry.role = .dflashKey ∨ entry.role = .dflashValue) := by
  cases geometry with
  | none => simp [draftCoordinates] at member
  | some present => exact mem_dflashCoordinates member

theorem length_segments (suffix : prefixCut < position) :
    (spanSchedule position prefixCut geometry elementType elements).segments.length =
      segmentCount position prefixCut geometry := by
  simp only [spanSchedule, numbered_append, List.length_append, length_numberedFrom, length_targetCoordinates suffix,
    length_draftCoordinates, segmentCount, draftSegmentCount, Nat.add_zero]

theorem part_target :
    (spanSchedule position prefixCut geometry elementType elements).part "target" =
      numberedFrom 0 (targetCoordinates position prefixCut elementType (elements * packedPlanes)) := by
  have own := @filter_numberedFrom_of_forall _ 0 _ fun entry
    (member : entry ∈ targetCoordinates position prefixCut elementType (elements * packedPlanes)) =>
    (mem_targetCoordinates member).1
  have others := @filter_numberedFrom_of_forall_ne _
    (targetCoordinates position prefixCut elementType (elements * packedPlanes)).length "target" fun entry
    (member : entry ∈ draftCoordinates position geometry) => by
      rw [(mem_draftCoordinates member).1]
      decide
  rw [TransferSchedule.part, spanSchedule, numbered_append, List.filter_append, own, others, List.append_nil]

theorem part_dflash :
    (spanSchedule position prefixCut geometry elementType elements).part "dflash" =
      numberedFrom (targetCoordinates position prefixCut elementType (elements * packedPlanes)).length
        (draftCoordinates position geometry) := by
  have others := @filter_numberedFrom_of_forall_ne _ 0 "dflash" fun entry
    (member : entry ∈ targetCoordinates position prefixCut elementType (elements * packedPlanes)) => by
      rw [(mem_targetCoordinates member).1]
      decide
  have own := @filter_numberedFrom_of_forall _
    (targetCoordinates position prefixCut elementType (elements * packedPlanes)).length _ fun entry
    (member : entry ∈ draftCoordinates position geometry) => (mem_draftCoordinates member).1
  rw [TransferSchedule.part, spanSchedule, numbered_append, List.filter_append, own, others, List.nil_append]

theorem ranges_eq (role : SegmentRoleV2) (layer : Option ℕ) :
    (spanSchedule position prefixCut geometry elementType elements).ranges role layer =
      selected role layer (targetCoordinates position prefixCut elementType (elements * packedPlanes)) ++
        selected role layer (draftCoordinates position geometry) := by
  rw [TransferSchedule.ranges, spanSchedule, numbered_append, List.map_append, map_toCoordinates_numberedFrom,
    map_toCoordinates_numberedFrom, ← selected_append]
  rfl

/-- Target roles and draft roles are apart. -/
theorem selected_draft_of_target {role : SegmentRoleV2} (layer : Option ℕ)
    (target : role ≠ .dflashKey ∧ role ≠ .dflashValue) :
    selected role layer (draftCoordinates position geometry) = [] := by
  rw [selected, List.map_eq_nil_iff]
  apply List.filter_eq_nil_iff.mpr
  intro entry member matching
  have same : entry.role = role := (of_decide_eq_true matching).1
  rcases (mem_draftCoordinates member).2 with key | value
  · exact target.1 (same ▸ key)
  · exact target.2 (same ▸ value)

theorem selected_target_of_draft {role : SegmentRoleV2} (layer : Option ℕ)
    (plane : role ∈ [SegmentRoleV2.dflashKey, .dflashValue]) :
    selected role layer (targetCoordinates position prefixCut elementType elements) = [] := by
  rw [selected, List.map_eq_nil_iff]
  apply List.filter_eq_nil_iff.mpr
  intro entry member matching
  have same : entry.role = role := (of_decide_eq_true matching).1
  have draft : entry.role ∈ [SegmentRoleV2.dflashKey, .dflashValue] := same ▸ plane
  rcases (mem_targetCoordinates member).2 with nope | swa
  · rw [nope.1] at draft
    exact absurd draft (by decide)
  · rw [swa.1] at draft
    exact absurd draft (by decide)

/-- A segment is numbered by its index, reduced to 32 bits. -/
theorem sequence_eq (index : ℕ)
    (inside : index < (spanSchedule position prefixCut geometry elementType elements).segments.length) :
    (spanSchedule position prefixCut geometry elementType elements).segments[index].sequence.toNat =
      index % u32Bound := by
  simp [spanSchedule, numbered, u32Bound]

theorem swaGroup_expansion : swaGroupHeads.length = 3 ∧ swaLayers.length = 39 ∧ swaLayers.Nodup ∧
    ∃ expanded, swaGroupHeads.mapM swaGroup = .ok expanded ∧ expanded.flatten = swaLayers := by
  refine ⟨by decide, by decide, by decide, ?_⟩
  exact ⟨[swaLayers.take 13, (swaLayers.drop 13).take 13, swaLayers.drop 26], by decide, by decide⟩

/-- Past `2 ^ 32` segments the numbers start again. -/
theorem segmentCount_le_of_sequence (suffix : prefixCut < position) (sequence : ∀ index (inside : index <
        (spanSchedule position prefixCut geometry elementType elements).segments.length),
      (spanSchedule position prefixCut geometry elementType elements).segments[index].sequence.toNat = index) :
    segmentCount position prefixCut geometry ≤ u32Bound := by
  by_contra long
  have inside : u32Bound < (spanSchedule position prefixCut geometry elementType elements).segments.length := by
    rw [length_segments suffix]
    omega
  have number := sequence u32Bound inside
  rw [sequence_eq, Nat.mod_self] at number
  exact absurd number (by decide)

/-- A wrapped sum splits the context where the sender does not. -/
theorem spansFit_of_draft (word : position < usizeBound) {present : DFlashContextGeometry}
    (layered : 0 < present.layers)
    (draft : ((spanSchedule position prefixCut (some present) elementType elements).part "dflash").map (·.intent) =
      dflashIntents position present.layers present.elementsPerToken present.sinkSize present.windowSize
        ((spanSchedule position prefixCut (some present) elementType elements).part "target").length) :
    present.sinkSize + present.windowSize < usizeBound ∨
      position ≤ wrappingAdd present.sinkSize present.windowSize := by
  by_contra wraps
  obtain ⟨large, split⟩ := not_or.mp wraps
  have whole : position ≤ present.sinkSize + present.windowSize := by lia
  have sent : dflashIntents position present.layers present.elementsPerToken present.sinkSize present.windowSize
      ((spanSchedule position prefixCut (some present) elementType elements).part "target").length =
      dflashIntents position present.layers present.elementsPerToken 0 position
        ((spanSchedule position prefixCut (some present) elementType elements).part "target").length := by
    simp only [dflashIntents, whole, if_true, Nat.zero_add, Nat.le_refl]
  have single : dflashRanges position 0 position = [(0, position)] := by
    have sum : wrappingAdd 0 position = position := by
      rw [wrappingAdd, Nat.zero_add, Nat.mod_eq_of_lt word]
    rw [dflashRanges, sum, if_pos (Nat.le_refl _)]
  have mirrored := @dflashIntents_eq position
    { present with sinkSize := 0, windowSize := position }
    ((spanSchedule position prefixCut (some present) elementType elements).part "target").length
    (by simp only [single, Nat.zero_add, Nat.le_refl, if_true])
  have lengths := congrArg List.length draft
  rw [sent, mirrored, part_dflash, List.length_map, length_numberedFrom, length_draftCoordinates, indexedFrom,
    List.length_map, List.length_zipIdx, length_dflashCoordinates] at lengths
  have one : position ≤ wrappingAdd 0 position := by
    rw [wrappingAdd, Nat.zero_add, Nat.mod_eq_of_lt word]
  simp only [draftSegmentCount, split, if_false, one, if_true] at lengths
  lia

/-- Where the numbers and the sum fit, the schedule covers the handoff. -/
theorem exactCover_of_fits (suffix : prefixCut < position) (word : position < usizeBound)
    (aligned : prefixCut % prefixCutAlign = 0) (width : elements * packedPlanes < u32Bound) (accepted : Accepted geometry)
    (numbers : segmentCount position prefixCut geometry ≤ u32Bound) (spans : SpansFit position geometry) :
    ExactCover position prefixCut geometry elementType elements
      (spanSchedule position prefixCut geometry elementType elements) := by
  have lengths := @length_segments _ _ geometry elementType elements suffix
  have total : (targetCoordinates position prefixCut elementType (elements * packedPlanes)).length +
      (draftCoordinates position geometry).length ≤ u32Bound := by
    rw [spanSchedule, numbered_append, List.length_append, length_numberedFrom, length_numberedFrom] at lengths
    lia
  constructor
  case sequence =>
    intro index inside
    have small : index < u32Bound := by lia
    rw [sequence_eq, Nat.mod_eq_of_lt small]
  case parts =>
    rw [part_target, part_dflash]
    exact numbered_append _ _
  case nope =>
    rw [ranges_eq, selected_target_nope, selected_draft_of_target none (by decide), List.append_nil]
    exact covers_tilesOf suffix
  case swa =>
    intro head member
    rw [ranges_eq, selected_target_swa member, selected_draft_of_target _ (by decide), List.append_nil]
    exact covers_swaTiles suffix
  case heads =>
    intro segment member
    rw [part_target] at member
    have entry := List.mem_map_of_mem (f := fun segment : SegmentIntent => segment.toCoordinates) member
    rw [map_toCoordinates_numberedFrom] at entry
    exact (mem_targetCoordinates entry).2
  case groups => exact swaGroup_expansion
  case sender =>
    rintro rfl rfl
    rw [part_target, map_intent_numberedFrom (by lia)]
    exact museIntents_eq suffix
  case full =>
    rintro rfl
    rw [museScheduleFor, museScheduleSpanFor_eq suffix aligned width accepted]
  case absent =>
    rintro rfl
    rw [part_dflash]
    rfl
  case draft =>
    rintro present rfl
    rw [part_dflash, part_target, length_numberedFrom, map_intent_numberedFrom total]
    exact (dflashIntents_eq present _ (dflashRanges_eq word (spans present rfl))).symm
  case joined =>
    rintro present rfl layer inside role plane pieces
    have positive : 0 < present.sinkSize := by
      by_contra empty
      have zero : present.sinkSize = 0 := by lia
      have valid := (accepted present rfl).1
      simp only [DFlashContextGeometry.validate, zero, if_true] at valid
      split_ifs at valid
    rw [ranges_eq, selected_target_of_draft _ plane, List.nil_append, draftCoordinates, selected_dflash inside plane]
    exact joinDflash_ok positive (dflashRanges_eq word (spans present rfl)) pieces
  case stream =>
    rintro rfl rfl rfl
    refine ⟨_, tileMajorFifoIntents_eq (by lia), ?_⟩
    rw [map_toCoordinates_indexedFrom, part_target, map_toCoordinates_numberedFrom]
    exact streamCoordinates_perm

/-- The schedule of a span covers what the receiver lacks, and the sender and the sink derive the same
segments, exactly when the segments can be numbered in 32 bits and the draft's sum does not wrap. -/
theorem schedule_exact_cover (position prefixCut : ℕ) (geometry : Option DFlashContextGeometry) (elementType : String)
    (elements : ℕ) (word : position < usizeBound) (suffix : prefixCut < position)
    (aligned : prefixCut % prefixCutAlign = 0) (width : elements * packedPlanes < u32Bound)
    (accepted : Accepted geometry) :
    ∃ schedule, museScheduleSpanFor position prefixCut geometry elementType elements = .ok (some schedule) ∧
      (ExactCover position prefixCut geometry elementType elements schedule ↔
        segmentCount position prefixCut geometry ≤ u32Bound ∧ SpansFit position geometry) := by
  refine ⟨_, museScheduleSpanFor_eq suffix aligned width accepted, ?_⟩
  constructor
  · intro cover
    refine ⟨segmentCount_le_of_sequence suffix cover.sequence, ?_⟩
    rintro present rfl
    have layered : 0 < present.layers := by
      by_contra empty
      have zero : present.layers = 0 := by lia
      have valid := (accepted present rfl).1
      simp [DFlashContextGeometry.validate, zero] at valid
    exact spansFit_of_draft word layered (cover.draft present rfl)
  · rintro ⟨numbers, spans⟩
    exact exactCover_of_fits suffix word aligned width accepted numbers spans

theorem schedule_exact_cover_two_groups :
    ∃ schedule, museScheduleSpanFor 2049 1024 (some ⟨2, 4, 64, 128⟩) "f16_le" 256 = .ok (some schedule) ∧
      (ExactCover 2049 1024 (some ⟨2, 4, 64, 128⟩) "f16_le" 256 schedule ↔
        segmentCount 2049 1024 (some ⟨2, 4, 64, 128⟩) ≤ u32Bound ∧ SpansFit 2049 (some ⟨2, 4, 64, 128⟩)) :=
  schedule_exact_cover 2049 1024 (some ⟨2, 4, 64, 128⟩) "f16_le" 256 (by decide) (by decide) (by decide) (by decide)
    fun present same => by
      cases same
      decide

/-- With too many segments a number is used twice. -/
theorem not_exactCover_of_lt (suffix : prefixCut < position) (aligned : prefixCut % prefixCutAlign = 0)
    (width : elements * packedPlanes < u32Bound) (accepted : Accepted geometry)
    (long : u32Bound < segmentCount position prefixCut geometry) :
    ¬ ∃ schedule, museScheduleSpanFor position prefixCut geometry elementType elements = .ok (some schedule) ∧
      ExactCover position prefixCut geometry elementType elements schedule := by
  rintro ⟨schedule, built, cover⟩
  rw [museScheduleSpanFor_eq suffix aligned width accepted] at built
  cases built
  have short := segmentCount_le_of_sequence suffix cover.sequence
  omega

/-- A prompt of `512 * (2 ^ 32 + 1)` rows has a segment at index `2 ^ 32`, numbered zero. -/
theorem schedule_sequence_wraps :
    ¬ ∃ schedule, museScheduleSpanFor (512 * (2 ^ 32 + 1)) 0 none "f16_le" 256 = .ok (some schedule) ∧
      ExactCover (512 * (2 ^ 32 + 1)) 0 none "f16_le" 256 schedule :=
  not_exactCover_of_lt (by decide) (by decide) (by decide) (fun present same => by cases same) (by decide)

end Schedule

end Muser.Cluster
