import Mathlib.Algebra.Group.Nat.Defs
import Muser.Lib.Bytes
import Muser.Lib.Check

/-! # The layers of the model

Of the 52 layers every fourth attends to the whole context without positions; the other 39 slide a
window over it.
-/

namespace Muser.Engine

def museLayerCount : ℕ := 52

def museSwaWindow : ℕ := 2048

inductive MuseLayerKind where
  | slidingRope
  | fullNoPe
deriving DecidableEq

def MuseLayerKind.isSwa : MuseLayerKind → Bool
  | .slidingRope => true
  | .fullNoPe => false

structure LayerIndexError where
  layer : ℕ
deriving DecidableEq

def layerKind (layer : ℕ) : Except LayerIndexError MuseLayerKind :=
  if museLayerCount ≤ layer then .error ⟨layer⟩
  else if layer % 4 = 3 then .ok .fullNoPe
  else .ok .slidingRope

/-- `usize` is 64 bits wide on every target of the engine. -/
def usizeBound : ℕ := 2 ^ 64

def checkedMul (left right : ℕ) : Option ℕ :=
  if left * right < usizeBound then some (left * right) else none

def saturatingAdd (left right : ℕ) : ℕ := min (left + right) (usizeBound - 1)

def saturatingMul (left right : ℕ) : ℕ := min (left * right) (usizeBound - 1)

end Muser.Engine

/-! ## Cache snapshots

The interchange form of a session's key and value rows. Plane bytes are in ascending order of the
logical token; a sliding layer carries the last window of rows and the others carry all of them.
-/

namespace Muser.Engine

abbrev Token := UInt32

inductive PlaneEncoding where
  | f16Le
  | f32Le
deriving DecidableEq

def PlaneEncoding.widthBytes : PlaneEncoding → ℕ
  | .f16Le => 2
  | .f32Le => 4

structure CachePlaneSnapshot where
  layer : UInt32
  logicalStart : ℕ
  logicalCount : ℕ
  encoding : PlaneEncoding
  key : Bytes
  value : Bytes
deriving DecidableEq

structure SessionCacheSnapshot where
  position : ℕ
  tokens : List Token
  elementsPerToken : UInt32
  layers : List CachePlaneSnapshot
deriving DecidableEq

namespace SessionCacheSnapshot

/-- The rows a layer holds at a position. -/
def layerRows (position swaWindow layer : ℕ) : ℕ :=
  match layerKind layer with
  | .ok kind => if kind.isSwa then min position swaWindow else position
  | .error _ => position

def expectedBytes (rows : ℕ) (elements : UInt32) (encoding : PlaneEncoding) : Option ℕ := do
  let elements ← checkedMul rows elements.toNat
  checkedMul elements encoding.widthBytes

/-- One layer against the range and the size its ordinal asks for. -/
def validateLayer (snapshot : SessionCacheSnapshot) (swaWindow : ℕ) (expectedLayer : ℕ) (plane : CachePlaneSnapshot) :
    Except String Unit := do
  reject (plane.layer.toNat != expectedLayer)
    ("cache snapshot layer order has " ++ toString plane.layer ++ " at ordinal " ++ toString expectedLayer)
  let count := layerRows snapshot.position swaWindow expectedLayer
  let start := snapshot.position - count
  reject (plane.logicalStart != start || plane.logicalCount != count)
    ("cache snapshot layer " ++ toString expectedLayer ++ " has range " ++ toString plane.logicalStart ++ ".." ++
      toString (saturatingAdd plane.logicalStart plane.logicalCount) ++ ", expected " ++ toString start ++ ".." ++
      toString snapshot.position)
  match expectedBytes count snapshot.elementsPerToken plane.encoding with
  | none => .error ("cache snapshot layer " ++ toString expectedLayer ++ " size overflow")
  | some expected =>
    reject (plane.key.length != expected || plane.value.length != expected)
      ("cache snapshot layer " ++ toString expectedLayer ++ " has K/V bytes " ++ toString plane.key.length ++ "/" ++
        toString plane.value.length ++ ", expected " ++ toString expected)

def validateForWindow (snapshot : SessionCacheSnapshot) (swaWindow : ℕ) : Except String Unit := do
  reject (snapshot.position == 0) "cache snapshot position must be nonzero"
  reject (snapshot.tokens.length != snapshot.position)
    ("cache snapshot carries " ++ toString snapshot.tokens.length ++ " tokens for position " ++
      toString snapshot.position)
  reject (snapshot.elementsPerToken == 0) "cache snapshot row width must be nonzero"
  reject (snapshot.layers.length != museLayerCount)
    ("cache snapshot carries " ++ toString snapshot.layers.length ++ " layers, expected " ++
      toString museLayerCount)
  forM snapshot.layers.zipIdx fun entry => snapshot.validateLayer swaWindow entry.2 entry.1

def validate (snapshot : SessionCacheSnapshot) : Except String Unit :=
  snapshot.validateForWindow museSwaWindow

/-- What a valid cut promises its readers. -/
theorem validate_ok {snapshot : SessionCacheSnapshot} (valid : snapshot.validate = .ok ()) :
    snapshot.position ≠ 0 ∧ snapshot.tokens.length = snapshot.position ∧ snapshot.elementsPerToken ≠ 0 := by
  rw [validate, validateForWindow] at valid
  simp only [check_eq_ok_iff, reject_eq_ok_iff] at valid
  obtain ⟨position, tokens, elements, -⟩ := valid
  exact ⟨by simpa using position, by simpa using tokens, by simpa using elements⟩

end SessionCacheSnapshot

end Muser.Engine
