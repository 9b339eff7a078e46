import Muser.Engine.Speculative

/-! # Remote installs

A remote prefill fills a detached generation of planes with tiles as they arrive; the live planes stay
as they are until the generation is complete. A delta install first copies the rows that the live
session already holds out of the live rings.
-/

namespace Muser.Engine

/-- The words of a little-endian byte string. -/
def halvesOfBytes : Bytes → List Half
  | low :: high :: rest => UInt16.ofNat (low.toNat + 256 * high.toNat) :: halvesOfBytes rest
  | _ => []

/-- Write a token-major tile into a plane buffer. -/
def writeF16Tile (dest : List Half) (capacity kvDim headDim : ℕ) (headMajor : Bool) (physicalStart count : ℕ)
    (bytes : Bytes) : Except String (List Half) :=
  match (checkedMul count kvDim).bind fun elements => checkedMul elements 2 with
  | none => .error "KV tile size overflow"
  | some expected =>
    if dest.length ≠ saturatingMul capacity kvDim ∨ kvDim = 0 ∨ headDim = 0 ∨ kvDim % headDim ≠ 0 ∨
        bytes.length ≠ expected ∨ usizeBound ≤ physicalStart + count ∨ capacity < physicalStart + count then
      .error ("KV tile geometry mismatch: dest=" ++ toString dest.length ++ ", capacity=" ++ toString capacity ++
        ", kv_dim=" ++ toString kvDim ++ ", start=" ++ toString physicalStart ++ ", count=" ++ toString count ++
        ", bytes=" ++ toString bytes.length)
    else if headMajor then
      .ok ((List.range (kvDim / headDim)).foldl
        (fun dest head =>
          (List.range count).foldl
            (fun dest token =>
              splice dest ((head * capacity + (physicalStart + token)) * headDim)
                (slice (halvesOfBytes bytes) (token * kvDim + head * headDim) headDim))
            dest)
        dest)
    else
      match (checkedMul physicalStart kvDim).bind fun elements => checkedMul elements 2 with
      | none => .error "KV tile offset overflow"
      | some _ => .ok (splice dest (physicalStart * kvDim) (halvesOfBytes bytes))

namespace MetalKvPlane

def bits (plane : MetalKvPlane) (isKey : Bool) : List Half := if isKey then plane.key else plane.value

def withBits (plane : MetalKvPlane) (isKey : Bool) (dest : List Half) : MetalKvPlane :=
  if isKey then { plane with key := dest } else { plane with value := dest }

/-- Write a tile at its logical position, in two parts where it passes the end of the ring. A failure
ends the transfer, so what a failed second part leaves behind is not kept. -/
def writeLogicalTile (plane : MetalKvPlane) (kvDim headDim logicalStart count : ℕ) (isKey : Bool) (bytes : Bytes) :
    Except MetalModelError MetalKvPlane :=
  if logicalStart < plane.originLogical then
    .error (.invalidSnapshot "remote KV tile starts before the plane origin")
  else
    let logicalOffset := logicalStart - plane.originLogical
    let physical := (plane.originPhysical + logicalOffset) % plane.capacity
    let dest := plane.bits isKey
    let first := min count (plane.capacity - physical)
    match checkedMul kvDim 2 with
    | none => .error (.invalidSnapshot "remote KV row size overflow")
    | some rowBytes =>
      match checkedMul count rowBytes with
      | none => .error (.invalidSnapshot "remote KV tile size overflow")
      | some expectedBytes =>
        if plane.capacity < count ∨ bytes.length ≠ expectedBytes then
          .error (.invalidSnapshot ("remote KV tile geometry mismatch: capacity=" ++ toString plane.capacity ++ ", count=" ++
            toString count ++ ", bytes=" ++ toString bytes.length ++ ", expected=" ++ toString expectedBytes))
        else
          match checkedMul first rowBytes with
          | none => .error (.invalidSnapshot "remote KV tile size overflow")
          | some firstBytes => do
            let dest ← (writeF16Tile dest plane.capacity kvDim headDim plane.headMajor physical first
              (bytes.take firstBytes)).mapError .invalidSnapshot
            if first < count then
              let dest ← (writeF16Tile dest plane.capacity kvDim headDim plane.headMajor 0 (count - first)
                (bytes.drop firstBytes)).mapError .invalidSnapshot
              .ok (plane.withBits isKey dest)
            else .ok (plane.withBits isKey dest)

end MetalKvPlane

/-- A detached generation that is filled as tiles arrive. -/
structure MetalRemoteKvInstall where
  tokens : List Token
  planes : List MetalKvPlane
  nextKey : List ℕ
  nextValue : List ℕ
  expectedLen : List ℕ
  kvDim : ℕ
  headDim : ℕ

namespace MetalRemoteKvInstall

def planeCursor (install : MetalRemoteKvInstall) (layer : ℕ) (isKey : Bool) : ℕ :=
  if isKey then install.nextKey.getD layer 0 else install.nextValue.getD layer 0

def setPlaneCursor (install : MetalRemoteKvInstall) (layer : ℕ) (isKey : Bool) (next : ℕ) : MetalRemoteKvInstall :=
  if isKey then { install with nextKey := install.nextKey.set layer next }
  else { install with nextValue := install.nextValue.set layer next }

/-- Accept a tile that starts where the plane's last one ended. -/
def writeF16Tile (install : MetalRemoteKvInstall) (layer : ℕ) (isKey : Bool) (logicalStart logicalCount : ℕ)
    (bytes : Bytes) : Except MetalModelError MetalRemoteKvInstall :=
  match install.planes[layer]? with
  | none => .error (.invalidSnapshot "remote KV tile names a missing layer")
  | some plane =>
    let expected := install.planeCursor layer isKey
    if logicalStart ≠ expected then
      .error (.invalidSnapshot ("remote KV tile for layer " ++ toString layer ++ " arrived at " ++ toString logicalStart ++
        ", expected " ++ toString expected))
    else do
      let plane ← plane.writeLogicalTile install.kvDim install.headDim logicalStart logicalCount isKey bytes
      if usizeBound ≤ logicalStart + logicalCount then .error (.invalidSnapshot "remote KV tile range overflow")
      else
        .ok ({ install with planes := install.planes.set layer plane }.setPlaneCursor layer isKey
          (logicalStart + logicalCount))

/-- Every plane must have its rows up to the end, keys and values. -/
def validateComplete (install : MetalRemoteKvInstall) : Except MetalModelError Unit :=
  forM install.planes.zipIdx fun entry =>
    let ends := entry.1.originLogical + install.expectedLen.getD entry.2 0
    reject (install.nextKey.getD entry.2 0 != ends || install.nextValue.getD entry.2 0 != ends)
      (.invalidSnapshot ("remote KV layer " ++ toString entry.2 ++ " is incomplete: K " ++
        toString (install.nextKey.getD entry.2 0) ++ " V " ++ toString (install.nextValue.getD entry.2 0) ++ ", expected " ++
        toString ends))

end MetalRemoteKvInstall

structure RingOrigin where
  logical : ℕ
  physical : ℕ
deriving DecidableEq

structure DeltaPrefixSpan where
  copyStart : ℕ
  copyEnd : ℕ
  resume : ℕ
deriving DecidableEq

/-- What one plane takes over from the live ring, and where its first tile must land. -/
def deltaPrefixSpan (origin position prefixCut liveOrigin liveEnd : ℕ) : Except String DeltaPrefixSpan :=
  if prefixCut = 0 ∨ position ≤ prefixCut then .error "delta prefix cut must leave a nonempty suffix"
  else if liveEnd < prefixCut then .error "the live session does not hold the named delta prefix"
  else if origin < prefixCut then
    if origin < liveOrigin then .error "the live ring no longer holds the delta window origin"
    else .ok { copyStart := origin, copyEnd := prefixCut, resume := max prefixCut origin }
  else .ok { copyStart := origin, copyEnd := origin, resume := max prefixCut origin }

/-- Copy logical rows between two rings of one capacity and storage order. -/
def copyRingPrefixRows (source destination : List Half) (capacity kvDim headDim : ℕ) (headMajor : Bool)
    (sourceOrigin destinationOrigin : RingOrigin) (logicalStart logicalEnd : ℕ) : Except String (List Half) :=
  if capacity = 0 ∨ headDim = 0 ∨ kvDim = 0 ∨ kvDim % headDim ≠ 0 then
    .error "ring plane row geometry is degenerate"
  else
    match checkedMul capacity kvDim with
    | none => .error "ring plane size overflow"
    | some elements =>
      if source.length ≠ elements ∨ destination.length ≠ elements then
        .error "ring plane storage disagrees with its capacity"
      else if sourceOrigin.physical ≠ sourceOrigin.logical % capacity ∨
          destinationOrigin.physical ≠ destinationOrigin.logical % capacity then
        .error "ring plane origin violates the sequential build invariant"
      else if usizeBound ≤ sourceOrigin.logical + capacity ∨ usizeBound ≤ destinationOrigin.logical + capacity then
        .error "ring plane logical range overflow"
      else if logicalEnd < logicalStart ∨ capacity < logicalEnd - logicalStart ∨ logicalStart < sourceOrigin.logical ∨
          logicalStart < destinationOrigin.logical ∨ sourceOrigin.logical + capacity < logicalEnd ∨
          destinationOrigin.logical + capacity < logicalEnd then
        .error "ring prefix copy range is outside the held rows"
      else
        .ok ((List.range' logicalStart (logicalEnd - logicalStart)).foldl
          (fun destination logical =>
            let sourcePhysical := (sourceOrigin.physical + (logical - sourceOrigin.logical)) % capacity
            let destinationPhysical := (destinationOrigin.physical + (logical - destinationOrigin.logical)) % capacity
            writeSlot destination capacity kvDim headDim headMajor destinationPhysical
              (readSlot source capacity kvDim headDim headMajor sourcePhysical))
          destination)

namespace MetalKvPlane

def origin (plane : MetalKvPlane) : RingOrigin := ⟨plane.originLogical, plane.originPhysical⟩

/-- The plane of a new generation: its metadata is final, its storage is whatever was allocated. -/
def remote (live : MetalKvPlane) (kind : MuseLayerKind) (position : ℕ) (storage : List Half × List Half) :
    MetalKvPlane :=
  let len := if kind.isSwa then min position live.capacity else position
  let origin := position - len
  { MetalKvPlane.new storage.1 storage.2 live.capacity live.headMajor with
    originLogical := origin
    originPhysical := origin % live.capacity
    len := len }

/-- Copy what a plane of the new generation takes over, and say where its tiles resume. -/
def takeOver (kvDim headDim position prefixCut : ℕ) (live plane : MetalKvPlane) :
    Except MetalModelError (MetalKvPlane × ℕ) := do
  let span ← (deltaPrefixSpan plane.originLogical position prefixCut live.originLogical
    (live.originLogical + live.len)).mapError .invalidSnapshot
  if span.copyStart < span.copyEnd then
    let key ← (copyRingPrefixRows live.key plane.key plane.capacity kvDim headDim plane.headMajor live.origin plane.origin
      span.copyStart span.copyEnd).mapError .invalidSnapshot
    let value ← (copyRingPrefixRows live.value plane.value plane.capacity kvDim headDim plane.headMajor live.origin
      plane.origin span.copyStart span.copyEnd).mapError .invalidSnapshot
    .ok ({ plane with key := key, value := value }, span.resume)
  else .ok (plane, span.resume)

end MetalKvPlane

namespace MetalMuseModel

/-- Begin a full install. `storage` is what the allocator answers for each layer. -/
def beginRemoteKvInstall (model : MetalMuseModel) (storage : ℕ → List Half × List Half) (tokens : List Token) :
    Except MetalModelError MetalRemoteKvInstall :=
  if tokens.length = 0 then .error (.invalidSnapshot "remote KV install needs a nonempty prefix")
  else
    let planes := (model.cache.zip model.layerKinds).mapIdx fun layer entry =>
      entry.1.remote entry.2 tokens.length (storage layer)
    .ok
      { tokens := tokens
        planes := planes
        nextKey := planes.map (·.originLogical)
        nextValue := planes.map (·.originLogical)
        expectedLen := planes.map (·.len)
        kvDim := model.kvDim
        headDim := model.headDim }

/-- Begin an install over the first `prefixCut` tokens of the live session. -/
def beginRemoteKvInstallDelta (model : MetalMuseModel) (storage : ℕ → List Half × List Half) (tokens : List Token)
    (prefixCut : ℕ) : Except MetalModelError MetalRemoteKvInstall :=
  if prefixCut = 0 then model.beginRemoteKvInstall storage tokens
  else if tokens.length ≤ prefixCut ∨ model.nPast < prefixCut then
    .error (.invalidSnapshot ("delta prefix cut " ++ toString prefixCut ++
      " must leave a suffix the live session holds (position " ++ toString tokens.length ++ ", live " ++
      toString model.nPast ++ ")"))
  else do
    let install ← model.beginRemoteKvInstall storage tokens
    let filled ← (model.cache.zip install.planes).mapM fun entry =>
      entry.1.takeOver model.kvDim model.headDim tokens.length prefixCut entry.2
    .ok
      { install with
        planes := filled.map Prod.fst
        nextKey := filled.map Prod.snd
        nextValue := filled.map Prod.snd }

/-- Swap in a complete generation. -/
def commitRemoteKvInstall (model : MetalMuseModel) (install : MetalRemoteKvInstall) :
    Except MetalModelError MetalMuseModel := do
  install.validateComplete
  .ok { model with nPast := install.tokens.length, cache := install.planes }

end MetalMuseModel

end Muser.Engine
