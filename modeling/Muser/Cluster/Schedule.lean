import Muser.Engine.Cache
import Muser.Lib.Tiling
import Mathlib.Data.List.Perm.Basic

/-! # The handoff schedule

The receiver derives the segments of a transfer from the prompt length and the prefix it holds; the
sender derives them again in Python. The sliding layers travel in three groups, tile by tile over the
window, then come the tiles of the other layers, then the context of the draft model.
-/

namespace Muser.Cluster

open Muser.Engine

inductive SegmentRoleV2 where
  | nopeKey
  | nopeValue
  | swaKey
  | swaValue
  | nopeTile
  | swaTile
  | dflashKey
  | dflashValue
  | auxiliary
deriving DecidableEq

/-- What a segment carries, apart from its number. The sender spells the role by its wire name. -/
structure Coordinates where
  componentId : String
  role : SegmentRoleV2
  layer : Option ℕ
  logicalStart : ℕ
  logicalCount : ℕ
  elementType : String
  elementsPerToken : ℕ
deriving DecidableEq

def Coordinates.range (coordinates : Coordinates) : ℕ × ℕ := (coordinates.logicalStart, coordinates.logicalCount)

structure SegmentIntent extends Coordinates where
  sequence : UInt32
deriving DecidableEq

structure TransferSchedule where
  segments : List SegmentIntent
  firstTileCompleteAfterTokens : ℕ
deriving DecidableEq

structure DFlashContextGeometry where
  layers : ℕ
  elementsPerToken : ℕ
  sinkSize : ℕ
  windowSize : ℕ
deriving DecidableEq

def nopeLayers : List ℕ := [3, 7, 11, 15, 19, 23, 27, 31, 35, 39, 43, 47, 51]
def nLayers : ℕ := 52
def swaWindow : ℕ := 2048
def nopeTile : ℕ := 512
def swaGroupSize : ℕ := 13
def packedPlanes : ℕ := 26
def prefixCutAlign : ℕ := 256

def u32Bound : ℕ := 2 ^ 32

/-- Addition of two `u64`s, which wraps. -/
def wrappingAdd (left right : ℕ) : ℕ := (left + right) % usizeBound

/-- Subtraction of two `u64`s, which wraps. -/
def wrappingSub (left right : ℕ) : ℕ := (left + (usizeBound - right)) % usizeBound

def swaLayers : List ℕ := (List.range nLayers).filter fun layer => !nopeLayers.contains layer

/-- The 512-token tiles of a span, the last one short. -/
def tilesOf (prefixCut position : ℕ) : List (ℕ × ℕ) :=
  (rangeStep prefixCut position nopeTile).map fun tileStart => (tileStart, min (position - tileStart) nopeTile)

/-- The part of a tile inside the window. -/
def swaChunk (swaStart : ℕ) (tile : ℕ × ℕ) : Option (ℕ × ℕ) :=
  let tileEnd := tile.1 + tile.2
  if tileEnd ≤ swaStart then none
  else
    let chunkStart := max tile.1 swaStart
    some (chunkStart, tileEnd - chunkStart)

/-- The first layer of each group of sliding layers. -/
def swaGroupHeads : List ℕ := (rangeStep 0 swaLayers.length swaGroupSize).map fun index => swaLayers.getD index 0

def swaTile (elementType : String) (packedElements head : ℕ) (chunk : ℕ × ℕ) : Coordinates where
  componentId := "target"
  role := .swaTile
  layer := some head
  logicalStart := chunk.1
  logicalCount := chunk.2
  elementType := elementType
  elementsPerToken := packedElements

def nopeTileOf (elementType : String) (packedElements : ℕ) (tile : ℕ × ℕ) : Coordinates where
  componentId := "target"
  role := .nopeTile
  layer := none
  logicalStart := tile.1
  logicalCount := tile.2
  elementType := elementType
  elementsPerToken := packedElements

/-- The target part, in wire order: every group over all its tiles, then the other layers. -/
def targetCoordinates (position prefixCut : ℕ) (elementType : String) (packedElements : ℕ) : List Coordinates :=
  let swaStart := max (position - swaWindow) prefixCut
  let tiles := tilesOf prefixCut position
  (swaGroupHeads.flatMap fun head =>
    (tiles.filterMap (swaChunk swaStart)).map (swaTile elementType packedElements head)) ++
  tiles.map (nopeTileOf elementType packedElements)

def DFlashContextGeometry.bufferedByteLimit (geometry : DFlashContextGeometry) : Except String ℕ :=
  match (checkedMul geometry.layers 2).bind fun value =>
      (checkedMul value (wrappingAdd geometry.sinkSize geometry.windowSize)).bind fun value =>
        (checkedMul value geometry.elementsPerToken).bind fun value => checkedMul value 4 with
  | some bytes => .ok bytes
  | none => .error "DFlash context geometry buffered byte limit overflow"

def DFlashContextGeometry.validate (geometry : DFlashContextGeometry) : Except String Unit :=
  if geometry.layers = 0 then .error "DFlash context geometry layers must be positive"
  else if geometry.elementsPerToken = 0 then .error "DFlash context geometry elements_per_token must be positive"
  else if geometry.sinkSize = 0 then .error "DFlash context geometry sink_size must be positive"
  else if geometry.windowSize = 0 then .error "DFlash context geometry window_size must be positive"
  else geometry.bufferedByteLimit.map fun _ => ()

/-- The rows of the draft context: all of them, or the sink and the window. -/
def dflashRanges (position sink window : ℕ) : List (ℕ × ℕ) :=
  if position ≤ wrappingAdd sink window then [(0, position)] else [(0, sink), (wrappingSub position window, window)]

def dflashSegment (elements layer : ℕ) (role : SegmentRoleV2) (range : ℕ × ℕ) : Coordinates where
  componentId := "dflash"
  role := role
  layer := some layer
  logicalStart := range.1
  logicalCount := range.2
  elementType := "f32_le"
  elementsPerToken := elements

def dflashCoordinates (position : ℕ) (geometry : DFlashContextGeometry) : List Coordinates :=
  (List.range geometry.layers).flatMap fun layer =>
    [SegmentRoleV2.dflashKey, .dflashValue].flatMap fun role =>
      (dflashRanges position geometry.sinkSize geometry.windowSize).map
        (dflashSegment geometry.elementsPerToken layer role)

/-- The coordinates of the draft context, where there is one; none if its geometry is refused. -/
def dflashPart (position : ℕ) : Option DFlashContextGeometry → Option (List Coordinates)
  | none => some []
  | some geometry =>
    match geometry.validate with
    | .error _ => none
    | .ok () =>
      if geometry.layers < u32Bound ∧ geometry.elementsPerToken < u32Bound then some (dflashCoordinates position geometry)
      else none

/-- Number the segments as they are pushed: `segments.len() as u32`. -/
def numbered (coordinates : List Coordinates) : List SegmentIntent :=
  coordinates.zipIdx.map fun entry => { entry.1 with sequence := UInt32.ofNat entry.2 }

/-- The schedule of a span; the error is the panic on a row width that does not fit. -/
def museScheduleSpanFor (position prefixCut : ℕ) (dflashGeometry : Option DFlashContextGeometry) (elementType : String)
    (elementsPerToken : ℕ) : Except String (Option TransferSchedule) :=
  if position = 0 ∨ position ≤ prefixCut ∨ prefixCut % prefixCutAlign ≠ 0 then .ok none
  else if u32Bound ≤ elementsPerToken * packedPlanes then .error "packed tile elements_per_token overflow"
  else
    .ok ((dflashPart position dflashGeometry).map fun dflash =>
      { segments :=
          numbered (targetCoordinates position prefixCut elementType (elementsPerToken * packedPlanes) ++ dflash)
        firstTileCompleteAfterTokens := min (saturatingAdd prefixCut nopeTile) position })

def museScheduleSpan (position prefixCut : ℕ) (dflashGeometry : Option DFlashContextGeometry) :
    Except String (Option TransferSchedule) :=
  museScheduleSpanFor position prefixCut dflashGeometry "f16_le" 256

/-- The full schedule; a refused span is a panic. -/
def museScheduleFor (position : ℕ) (dflashGeometry : Option DFlashContextGeometry) (elementType : String)
    (elementsPerToken : ℕ) : Except String TransferSchedule :=
  match museScheduleSpanFor position 0 dflashGeometry elementType elementsPerToken with
  | .ok (some schedule) => .ok schedule
  | .ok none => .error "a full schedule needs only a nonempty position"
  | .error panic => .error panic

def museSchedule (position : ℕ) (dflashGeometry : Option DFlashContextGeometry) : Except String TransferSchedule :=
  museScheduleFor position dflashGeometry "f16_le" 256

/-- A segment as the sender numbers it. -/
structure Intent extends Coordinates where
  sequence : ℕ
deriving DecidableEq

section Sender

def packedElements : ℕ := 256 * packedPlanes

inductive ProtocolError where
  | message (text : String)
deriving DecidableEq

/-- Append with the next number. -/
def appendIntent (output : List Intent) (coordinates : Coordinates) : List Intent :=
  output ++ [{ coordinates with sequence := output.length }]

/-- The step of the sender's loop over the tiles of a group. -/
def appendGroupTile (swaStart head : ℕ) (output : List Intent) (tile : ℕ × ℕ) : List Intent :=
  match swaChunk swaStart tile with
  | none => output
  | some chunk => appendIntent output (swaTile "f16_le" packedElements head chunk)

/-- The sender's loop over the groups and tiles, then over the tiles again. -/
def museIntents (position prefixCut : ℕ) : Except ProtocolError (List Intent) :=
  if position < 1 then .error (.message "cannot hand off an empty prefix")
  else if position ≤ prefixCut then .error (.message "prefix cut must leave a nonempty suffix")
  else if swaLayers.length % swaGroupSize ≠ 0 then
    .error (.message "Muse SWA layers are not divisible into pipe-safe groups")
  else
    let swaStart := max prefixCut (position - swaWindow)
    let tiles := (rangeStep prefixCut position nopeTile).map fun start => (start, min nopeTile (position - start))
    let groups := (rangeStep 0 swaLayers.length swaGroupSize).foldl
      (fun output groupStart => tiles.foldl (appendGroupTile swaStart (swaLayers.getD groupStart 0)) output) []
    .ok (tiles.foldl (fun output tile => appendIntent output (nopeTileOf "f16_le" packedElements tile)) groups)

/-- The step of the live stream: a tile, then its groups. -/
def appendStreamTile (swaStart : ℕ) (output : List Intent) (tile : ℕ × ℕ) : List Intent :=
  let output := appendIntent output (nopeTileOf "f16_le" packedElements tile)
  match swaChunk swaStart tile with
  | none => output
  | some chunk =>
    (rangeStep 0 swaLayers.length swaGroupSize).foldl
      (fun output groupStart =>
        appendIntent output (swaTile "f16_le" packedElements (swaLayers.getD groupStart 0) chunk))
      output

/-- The order of the live stream: tile by tile, each followed by its groups. -/
def tileMajorFifoIntents (position : ℕ) : Except ProtocolError (List Intent) :=
  if position < 1 then .error (.message "cannot hand off an empty prefix")
  else
    let swaStart := max 0 (position - swaWindow)
    .ok ((rangeStep 0 position nopeTile).foldl
      (fun output start => appendStreamTile swaStart output (start, min nopeTile (position - start))) [])

def dflashIntents (position layers width sinkSize windowSize sequence : ℕ) : List Intent :=
  let ranges :=
    if position ≤ sinkSize + windowSize then [(0, position)]
    else [(0, sinkSize), (position - windowSize, windowSize)]
  (List.range layers).foldl
    (fun output layer =>
      [SegmentRoleV2.dflashKey, .dflashValue].foldl
        (fun output role =>
          ranges.foldl
            (fun output range =>
              output ++ [{ dflashSegment width layer role range with sequence := sequence + output.length }])
            output)
        output)
    []

end Sender

section Sink

inductive HandoffError where
  | validation (message : String)
deriving DecidableEq

structure Piece where
  start : ℕ
  count : ℕ
  bytes : List UInt8
deriving DecidableEq

/-- The layers of the group that starts with `first`. -/
def swaGroup (first : ℕ) : Except HandoffError (List ℕ) :=
  match swaLayers.idxOf? first with
  | none => .error (.validation "SWA tile group is not a Muse SWA layer")
  | some index =>
    if index % swaGroupSize ≠ 0 then .error (.validation "SWA tile group is not aligned")
    else if swaLayers.length < index + swaGroupSize then .error (.validation "SWA tile group is short")
    else .ok ((swaLayers.drop index).take swaGroupSize)

/-- Compare sorted pieces with the expected ranges and concatenate their bytes. -/
def joinPieces (sink window : ℕ) : List Piece → List (ℕ × ℕ) → List UInt8 → Except HandoffError (List UInt8)
  | piece :: pieces, (start, count) :: expected, bytes =>
    if piece.start ≠ start ∨ piece.count ≠ count then
      .error (.validation ("DFlash context geometry mismatch: sink_size=" ++ toString sink ++ ", window_size=" ++
        toString window ++ " require range " ++ toString start ++ "+" ++ toString count ++ ", got " ++
        toString piece.start ++ "+" ++ toString piece.count))
    else joinPieces sink window pieces expected (bytes ++ piece.bytes)
  | _, _, bytes => .ok bytes

def joinDflash (pieces : List Piece) (position sink window : ℕ) : Except HandoffError (List UInt8) :=
  let pieces := pieces.mergeSort fun left right => left.start ≤ right.start
  let expected := dflashRanges position sink window
  if pieces.length ≠ expected.length then
    .error (.validation ("DFlash context geometry mismatch: sink_size=" ++ toString sink ++ ", window_size=" ++
      toString window ++ " require " ++ toString expected.length ++ " segments, got " ++ toString pieces.length))
  else joinPieces sink window pieces expected []

end Sink

end Muser.Cluster
