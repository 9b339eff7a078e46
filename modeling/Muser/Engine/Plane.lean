import Muser.Lib.Rows
import Muser.Engine.Cache

/-! # Key and value planes

A plane keeps the last `capacity` rows of one layer in a ring. Its metadata names the first held
logical row and the slot that row is in. Rows are stored one after another or, where the attention
kernel wants it so, head by head.
-/

namespace Muser.Engine

inductive MetalModelError where
  | cacheDiscontinuity (layer expected got : ℕ)
  | invalidSnapshot (message : String)
deriving DecidableEq

/-- An `f16` by its bits. -/
abbrev Half := UInt16

structure KvRow where
  key : List Half
  value : List Half
deriving DecidableEq

/-- The row in a slot of a buffer, in either storage order. -/
def readSlot (bits : List Half) (capacity kvDim headDim : ℕ) (headMajor : Bool) (physical : ℕ) : List Half :=
  if headMajor then
    ((List.range (kvDim / headDim)).map fun kvHead => slice bits ((kvHead * capacity + physical) * headDim) headDim).flatten
  else slice bits (physical * kvDim) kvDim

/-- Overwrite the row in a slot of a buffer. -/
def writeSlot (bits : List Half) (capacity kvDim headDim : ℕ) (headMajor : Bool) (physical : ℕ) (row : List Half) :
    List Half :=
  if headMajor then
    (List.range (kvDim / headDim)).foldl
      (fun bits kvHead =>
        splice bits ((kvHead * capacity + physical) * headDim) (slice row (kvHead * headDim) headDim))
      bits
  else splice bits (physical * kvDim) row

structure MetalKvPlane where
  key : List Half
  value : List Half
  capacity : ℕ
  len : ℕ
  originLogical : ℕ
  originPhysical : ℕ
  headMajor : Bool
deriving DecidableEq

structure MetalPlaneSnapshot where
  originLogical : ℕ
  len : ℕ
  capacity : ℕ
  keyLogical : List Half
  valueLogical : List Half
  headMajor : Bool
deriving DecidableEq

namespace MetalKvPlane

/-- An empty plane over given storage: zeros, or whatever the allocation holds. -/
def new (key value : List Half) (capacity : ℕ) (headMajor : Bool) : MetalKvPlane where
  key := key
  value := value
  capacity := capacity
  len := 0
  originLogical := 0
  originPhysical := 0
  headMajor := headMajor

def readRow (plane : MetalKvPlane) (kvDim headDim physical : ℕ) : KvRow where
  key := readSlot plane.key plane.capacity kvDim headDim plane.headMajor physical
  value := readSlot plane.value plane.capacity kvDim headDim plane.headMajor physical

def writeRow (plane : MetalKvPlane) (kvDim headDim physical : ℕ) (row : KvRow) : MetalKvPlane :=
  { plane with
    key := writeSlot plane.key plane.capacity kvDim headDim plane.headMajor physical row.key
    value := writeSlot plane.value plane.capacity kvDim headDim plane.headMajor physical row.value }

/-- Reserve the slot for `position` and advance the metadata. -/
def append (plane : MetalKvPlane) (layer position : ℕ) : Except MetalModelError (ℕ × MetalKvPlane) :=
  let expected := plane.originLogical + plane.len
  if position ≠ expected then .error (.cacheDiscontinuity layer expected position)
  else if plane.len < plane.capacity then
    .ok ((plane.originPhysical + plane.len) % plane.capacity, { plane with len := plane.len + 1 })
  else
    .ok (plane.originPhysical,
      { plane with
        originLogical := plane.originLogical + 1
        originPhysical := (plane.originPhysical + 1) % plane.capacity })

/-- Advance the metadata by a batch; the answer is the range of batch rows that stay. -/
def appendBatch (plane : MetalKvPlane) (layer startPosition tokenCount : ℕ) :
    Except MetalModelError ((ℕ × ℕ) × MetalKvPlane) :=
  let expected := plane.originLogical + plane.len
  if startPosition ≠ expected then .error (.cacheDiscontinuity layer expected startPosition)
  else if usizeBound ≤ plane.len + tokenCount then .error (.invalidSnapshot "cache length overflow")
  else
    let total := plane.len + tokenCount
    let next :=
      if total ≤ plane.capacity then { plane with len := total }
      else
        let overflow := total - plane.capacity
        { plane with
          originLogical := plane.originLogical + overflow
          originPhysical := (plane.originPhysical + overflow) % plane.capacity
          len := plane.capacity }
    let sourceFirst := next.originLogical - startPosition
    .ok ((sourceFirst, tokenCount - sourceFirst), next)

def reset (plane : MetalKvPlane) : MetalKvPlane :=
  { plane with len := 0, originLogical := 0, originPhysical := 0 }

/-- The slots of the held rows, in logical order. -/
def heldSlots (plane : MetalKvPlane) : List ℕ :=
  (List.range plane.len).map fun logicalOffset => (plane.originPhysical + logicalOffset) % plane.capacity

def snapshot (plane : MetalKvPlane) (kvDim headDim : ℕ) : MetalPlaneSnapshot where
  originLogical := plane.originLogical
  len := plane.len
  capacity := plane.capacity
  keyLogical := (plane.heldSlots.map fun physical =>
    readSlot plane.key plane.capacity kvDim headDim plane.headMajor physical).flatten
  valueLogical := (plane.heldSlots.map fun physical =>
    readSlot plane.value plane.capacity kvDim headDim plane.headMajor physical).flatten
  headMajor := plane.headMajor

/-- Lay logical rows out from slot `rotation` on, over zeros. -/
def detachedBits (logical : List Half) (len capacity kvDim headDim : ℕ) (headMajor : Bool) (rotation : ℕ) : List Half :=
  let zeros := List.replicate (capacity * kvDim) 0
  if headMajor then
    (List.range len).foldl
      (fun bits logicalOffset =>
        writeSlot bits capacity kvDim headDim true ((rotation + logicalOffset) % capacity)
          (slice logical (logicalOffset * kvDim) kvDim))
      zeros
  else
    let first := min len (capacity - rotation)
    let head := first * kvDim
    let bits := splice zeros (rotation * kvDim) (logical.take head)
    if first < len then splice bits 0 (logical.drop head) else bits

def detachedFrom (snapshot : MetalPlaneSnapshot) (kvDim headDim : ℕ) : Except MetalModelError MetalKvPlane :=
  match checkedMul snapshot.len kvDim with
  | none => .error (.invalidSnapshot "plane length overflow")
  | some expected =>
    if snapshot.capacity = 0 ∨ snapshot.capacity < snapshot.len ∨ snapshot.keyLogical.length ≠ expected ∨
        snapshot.valueLogical.length ≠ expected then
      .error (.invalidSnapshot ("plane capacity=" ++ toString snapshot.capacity ++ ", len=" ++ toString snapshot.len ++
        ", key=" ++ toString snapshot.keyLogical.length ++ ", value=" ++ toString snapshot.valueLogical.length ++
        ", expected=" ++ toString expected))
    else
      let rotation := snapshot.originLogical % snapshot.capacity
      .ok
        { key := detachedBits snapshot.keyLogical snapshot.len snapshot.capacity kvDim headDim snapshot.headMajor rotation
          value :=
            detachedBits snapshot.valueLogical snapshot.len snapshot.capacity kvDim headDim snapshot.headMajor rotation
          capacity := snapshot.capacity
          len := snapshot.len
          originLogical := snapshot.originLogical
          originPhysical := rotation
          headMajor := snapshot.headMajor }

/-- Append one row: the row goes to the slot that `append` answers. -/
def appendRow (plane : MetalKvPlane) (kvDim headDim layer position : ℕ) (row : KvRow) :
    Except MetalModelError MetalKvPlane := do
  let reserved ← plane.append layer position
  .ok (reserved.2.writeRow kvDim headDim reserved.1 row)

/-- Write batch rows from `position` on, each to the slot its logical position maps to. -/
def storeRows (kvDim headDim : ℕ) : MetalKvPlane → ℕ → List KvRow → MetalKvPlane
  | plane, _, [] => plane
  | plane, position, row :: rows =>
    let physical := (plane.originPhysical + (position - plane.originLogical)) % plane.capacity
    storeRows kvDim headDim (plane.writeRow kvDim headDim physical row) (position + 1) rows

/-- Append a batch: the rows that stay are stored. -/
def appendRows (plane : MetalKvPlane) (kvDim headDim layer startPosition : ℕ) (rows : List KvRow) :
    Except MetalModelError MetalKvPlane := do
  let reserved ← plane.appendBatch layer startPosition rows.length
  .ok (reserved.2.storeRows kvDim headDim (startPosition + reserved.1.1) (slice rows reserved.1.1 reserved.1.2))

end MetalKvPlane

end Muser.Engine
