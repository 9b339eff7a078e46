import Muser.Cluster.Cover
import Muser.Engine.Takeover

/-! # Installing segments

The sink scatters a packed tile over its thirteen layers, keys before values. A segment of the target
is therefore a list of tiles for single planes, and what the engine accepts of them it accepts plane by
plane.
-/

namespace Muser.Cluster

open Muser.Engine

def MetalModelError.text : MetalModelError → String
  | .cacheDiscontinuity layer expected got =>
    "Metal KV cache for layer " ++ toString layer ++ " expected logical position " ++ toString expected ++ ", got " ++
      toString got
  | .invalidSnapshot message => "invalid Metal KV snapshot: " ++ message

def refused (error : MetalModelError) : HandoffError := .validation (MetalModelError.text error)

/-- The planes of some layers, in the order a packed tile carries them. -/
def packedPlanesOf (layers : List ℕ) : List (ℕ × Bool) :=
  layers.flatMap fun layer => [true, false].map fun isKey => (layer, isKey)

/-- A packed tile cut into the tiles of its planes. -/
def packedWrites (layers : List ℕ) (start count planeBytes : ℕ) (payload : Bytes) : List TileWrite :=
  (packedPlanesOf layers).mapIdx fun index plane =>
    { layer := plane.1
      isKey := plane.2
      start := start
      count := count
      bytes := slice payload (index * planeBytes) planeBytes }

def installPackedTile (install : MetalRemoteKvInstall) (layers : List ℕ) (start count elementsPerToken : ℕ)
    (payload : Bytes) : Except HandoffError MetalRemoteKvInstall :=
  if elementsPerToken ≠ packedPlanes * 256 then .error (.validation "packed tile row width is not 26 Muse planes")
  else if layers.length ≠ 13 then .error (.validation "packed tile does not contain 13 layers")
  else
    match (checkedMul count 256).bind fun elements => checkedMul elements 2 with
    | none => .error (.validation "packed tile plane size overflow")
    | some planeBytes =>
      match checkedMul planeBytes (layers.length * 2) with
      | none => .error (.validation "packed tile payload size overflow")
      | some expected =>
        if payload.length ≠ expected then .error (.validation "packed tile payload disagrees with row geometry")
        else (install.writeTiles (packedWrites layers start count planeBytes payload)).mapError refused

/-- Install one segment of the target. -/
def segmentReady (install : MetalRemoteKvInstall) (segment : Coordinates) (payload : Bytes) :
    Except HandoffError MetalRemoteKvInstall :=
  if segment.elementType ≠ "f16_le" then .error (.validation "target KV must use f16_le")
  else
    match segment.role with
    | .nopeTile =>
      installPackedTile install nopeLayers segment.logicalStart segment.logicalCount segment.elementsPerToken payload
    | .swaTile =>
      match segment.layer with
      | none => .error (.validation "SWA tile is missing a group layer")
      | some first => do
        let group ← swaGroup first
        installPackedTile install group segment.logicalStart segment.logicalCount segment.elementsPerToken payload
    | .nopeKey | .swaKey =>
      match segment.layer with
      | none => .error (.validation "target KV segment has no layer")
      | some layer =>
        (install.writeF16Tile layer true segment.logicalStart segment.logicalCount payload).mapError refused
    | .nopeValue | .swaValue =>
      match segment.layer with
      | none => .error (.validation "target KV segment has no layer")
      | some layer =>
        (install.writeF16Tile layer false segment.logicalStart segment.logicalCount payload).mapError refused
    | _ => .error (.validation "target component contains non-KV role")

/-- Install segments as they arrive. -/
def installSegments (install : MetalRemoteKvInstall) (segments : List (Coordinates × Bytes)) :
    Except HandoffError MetalRemoteKvInstall :=
  segments.foldlM (fun install segment => segmentReady install segment.1 segment.2) install

section Writes

variable {install next : MetalRemoteKvInstall} {layers : List ℕ} {start count : ℕ} {payload : Bytes}

/-- The planes that a segment is for, in the order it carries them. -/
def segmentPlanes (segment : Coordinates) : List (ℕ × Bool) :=
  match segment.role, segment.layer with
  | .nopeTile, _ => packedPlanesOf nopeLayers
  | .swaTile, some first =>
    match swaGroup first with
    | .ok group => packedPlanesOf group
    | .error _ => []
  | .nopeKey, some layer => [(layer, true)]
  | .swaKey, some layer => [(layer, true)]
  | .nopeValue, some layer => [(layer, false)]
  | .swaValue, some layer => [(layer, false)]
  | _, _ => []

/-- The tiles of single planes that a segment is cut into. -/
def segmentWrites (segment : Coordinates × Bytes) : List TileWrite :=
  match segment.1.role with
  | .nopeTile | .swaTile =>
    (segmentPlanes segment.1).mapIdx fun index plane =>
      { layer := plane.1
        isKey := plane.2
        start := segment.1.logicalStart
        count := segment.1.logicalCount
        bytes := slice segment.2 (index * (segment.1.logicalCount * 256 * 2)) (segment.1.logicalCount * 256 * 2) }
  | _ =>
    (segmentPlanes segment.1).map fun plane =>
      { layer := plane.1
        isKey := plane.2
        start := segment.1.logicalStart
        count := segment.1.logicalCount
        bytes := segment.2 }

theorem mapError_eq_ok_iff {ε δ α : Type} {act : Except ε α} {rename : ε → δ} {answer : α} :
    act.mapError rename = .ok answer ↔ act = .ok answer := by
  cases act <;> simp [Except.mapError]

theorem checkedMul_eq_some {left right product : ℕ} (found : checkedMul left right = some product) :
    product = left * right := by
  rw [checkedMul] at found
  split at found
  · cases found
    rfl
  · cases found

theorem installPackedTile_ok {elementsPerToken : ℕ}
    (accepted : installPackedTile install layers start count elementsPerToken payload = .ok next) :
    install.writeTiles (packedWrites layers start count (count * 256 * 2) payload) = .ok next := by
  rw [installPackedTile] at accepted
  split at accepted
  · cases accepted
  · split at accepted
    · cases accepted
    · split at accepted
      · cases accepted
      · next planeBytes sized =>
        obtain ⟨elements, first, second⟩ := Option.bind_eq_some_iff.mp sized
        obtain rfl := checkedMul_eq_some first
        obtain rfl := checkedMul_eq_some second
        split at accepted
        · cases accepted
        · split at accepted
          · cases accepted
          · exact mapError_eq_ok_iff.mp accepted

/-- A segment the sink accepts is its tiles, accepted one after the other. -/
theorem segmentReady_ok {segment : Coordinates} (accepted : segmentReady install segment payload = .ok next) :
    install.writeTiles (segmentWrites (segment, payload)) = .ok next := by
  have single (layer : ℕ) (isKey : Bool) (write : TileWrite) (same : write = ⟨layer, isKey, segment.logicalStart,
      segment.logicalCount, payload⟩) (wrote : (install.writeF16Tile layer isKey segment.logicalStart segment.logicalCount
        payload).mapError refused = .ok next) : install.writeTiles [write] = .ok next := by
    subst same
    rw [MetalRemoteKvInstall.writeTiles_cons, mapError_eq_ok_iff.mp wrote]
    rfl
  rw [segmentReady] at accepted
  split at accepted
  · cases accepted
  · obtain ⟨componentId, role, layer, logicalStart, logicalCount, elementType, elementsPerToken⟩ := segment
    cases role with
    | nopeTile => exact installPackedTile_ok accepted
    | swaTile =>
      cases layer with
      | none => cases accepted
      | some first =>
        obtain ⟨group, grouped, rest⟩ := bind_eq_ok_iff.mp accepted
        have wrote := installPackedTile_ok rest
        simp only [segmentWrites, segmentPlanes, grouped]
        exact wrote
    | nopeKey | swaKey =>
      cases layer with
      | none => cases accepted
      | some layer => exact single layer true _ rfl accepted
    | nopeValue | swaValue =>
      cases layer with
      | none => cases accepted
      | some layer => exact single layer false _ rfl accepted
    | dflashKey => cases accepted
    | dflashValue => cases accepted
    | auxiliary => cases accepted

theorem writeTiles_append (writes more : List TileWrite) :
    install.writeTiles (writes ++ more) = install.writeTiles writes >>= fun next => next.writeTiles more :=
  List.foldlM_append

/-- So is a run of segments. -/
theorem installSegments_ok {segments : List (Coordinates × Bytes)}
    (accepted : installSegments install segments = .ok next) :
    install.writeTiles (segments.flatMap segmentWrites) = .ok next := by
  induction segments generalizing install with
  | nil =>
    cases accepted
    rfl
  | cons segment segments ih =>
    rw [installSegments, List.foldlM_cons] at accepted
    obtain ⟨between, first, rest⟩ := bind_eq_ok_iff.mp accepted
    rw [List.flatMap_cons, writeTiles_append, segmentReady_ok first]
    exact ih rest

end Writes

end Muser.Cluster
