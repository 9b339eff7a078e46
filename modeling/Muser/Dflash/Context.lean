import Muser.Engine.Logits
import Muser.Lib.SinkWindow

/-! # The draft context

The drafter attends to key and value rows of the positions before it: the first `sink` of them and the
last `window`, in one compact plane for each layer. Every change of the cache moves its revision, and
accelerator mirrors remember the identity and the revision of what they hold.
-/

namespace Muser.Dflash

open Engine

structure DFlashContextKvCache where
  ctxK : List (List Single)
  ctxV : List (List Single)
  ctxLen : ℕ
  ctxOffset : ℕ
  sinkSize : ℕ
  windowSize : ℕ
  width : ℕ
  identity : UInt64
  revision : UInt64
  layerRevisions : List UInt64
deriving DecidableEq

structure DFlashContextSnapshot where
  position : ℕ
  sinkSize : ℕ
  windowSize : ℕ
  elementsPerToken : ℕ
  layers : List (List Single × List Single)
deriving DecidableEq

/-- Remove elements of a plane. -/
def drain (plane : List Single) (start count : ℕ) : List Single := plane.take start ++ plane.drop (start + count)

/-- What a batch that is longer than the cache leaves of a plane. -/
def retain (sink window width tokens : ℕ) (current fresh : List Single) : List Single :=
  let currentRows := current.length / width
  let sinkFromCurrent := min currentRows sink
  let sinkFromFresh := sink - sinkFromCurrent
  current.take (sinkFromCurrent * width) ++ fresh.take (sinkFromFresh * width) ++
    slice fresh ((tokens - window) * width) (window * width)

namespace DFlashContextKvCache

def new (layers width sinkSize windowSize : ℕ) (identity : UInt64) : DFlashContextKvCache where
  ctxK := List.replicate layers []
  ctxV := List.replicate layers []
  ctxLen := 0
  ctxOffset := 0
  sinkSize := sinkSize
  windowSize := windowSize
  width := width
  identity := identity
  revision := 0
  layerRevisions := List.replicate layers 0

def physicalCapacity (cache : DFlashContextKvCache) : ℕ := cache.sinkSize + cache.windowSize

def physicalSlot (cache : DFlashContextKvCache) (absolutePosition : ℕ) : ℕ :=
  if absolutePosition < cache.sinkSize then absolutePosition
  else cache.sinkSize + (absolutePosition - cache.sinkSize) % cache.windowSize

/-- The position of a compact row. -/
def retainedAbsolutePosition (cache : DFlashContextKvCache) (logicalRow : ℕ) : ℕ :=
  let sinkRows := min cache.ctxLen cache.sinkSize
  if logicalRow < sinkRows then logicalRow
  else
    let tailRows := cache.ctxLen - sinkRows
    cache.ctxOffset - tailRows + (logicalRow - sinkRows)

/-- Replace the planes of a layer. -/
def setLayer (cache : DFlashContextKvCache) (layer : ℕ) (key value : List Single) : DFlashContextKvCache :=
  { cache with
    ctxK := cache.ctxK.set layer key
    ctxV := cache.ctxV.set layer value
    layerRevisions := cache.layerRevisions.modify layer (· + 1) }

def appendLayer (cache : DFlashContextKvCache) (layer : ℕ) (k v : List Single) (tokens : ℕ) : DFlashContextKvCache :=
  let needed := tokens * cache.width
  let maximum := cache.sinkSize + cache.windowSize
  let key := cache.ctxK.getD layer []
  let value := cache.ctxV.getD layer []
  if maximum < tokens then
    cache.setLayer layer (retain cache.sinkSize cache.windowSize cache.width tokens key k)
      (retain cache.sinkSize cache.windowSize cache.width tokens value v)
  else
    let key := key ++ k.take needed
    let value := value ++ v.take needed
    let total := key.length / cache.width
    if maximum < total then
      cache.setLayer layer (drain key (cache.sinkSize * cache.width) ((total - maximum) * cache.width))
        (drain value (cache.sinkSize * cache.width) ((total - maximum) * cache.width))
    else cache.setLayer layer key value

def advanceRound (cache : DFlashContextKvCache) (tokens : ℕ) : DFlashContextKvCache :=
  { cache with
    ctxOffset := cache.ctxOffset + tokens
    ctxLen := ((cache.ctxK.head?).map fun key => key.length / cache.width).getD 0
    revision := cache.revision + 1 }

/-- Advance across prompt rows that will not be retained. -/
def advancePromptGap (cache : DFlashContextKvCache) (nextOffset : ℕ) : Except String DFlashContextKvCache :=
  let expectedSink := min cache.sinkSize cache.ctxOffset
  if nextOffset ≤ cache.ctxOffset ∨ cache.ctxLen ≠ expectedSink ∨ cache.ctxOffset ≠ expectedSink then
    .error "DFlash prompt gap is not immediately after the retained sink"
  else .ok { cache with ctxOffset := nextOffset, revision := cache.revision + 1 }

def snapshot (cache : DFlashContextKvCache) : DFlashContextSnapshot where
  position := cache.ctxOffset
  sinkSize := cache.sinkSize
  windowSize := cache.windowSize
  elementsPerToken := cache.width
  layers := cache.ctxK.zip cache.ctxV

end DFlashContextKvCache

namespace DFlashContextSnapshot

def validate (snapshot : DFlashContextSnapshot) : Except String Unit :=
  if snapshot.position = 0 ∨ snapshot.elementsPerToken = 0 ∨ snapshot.layers = [] ∨ snapshot.sinkSize = 0 ∨
      snapshot.windowSize = 0 then
    .error "invalid DFlash context snapshot geometry"
  else
    match checkedMul (min snapshot.position (snapshot.sinkSize + snapshot.windowSize)) snapshot.elementsPerToken with
    | none => .error "DFlash context snapshot size overflow"
    | some elements =>
      if snapshot.layers.any fun layer => layer.1.length != elements || layer.2.length != elements then
        .error "DFlash context snapshot plane length mismatch"
      else .ok ()

end DFlashContextSnapshot

namespace DFlashContextKvCache

def geometryMismatch (name : String) (expected actual : ℕ) : String :=
  "DFlash context snapshot geometry mismatch: " ++ name ++ " expected " ++ toString expected ++ ", got " ++ toString actual

def validateSnapshotIdentity (cache : DFlashContextKvCache) (snapshot : DFlashContextSnapshot) : Except String Unit := do
  snapshot.validate
  reject (snapshot.layers.length != cache.ctxK.length)
    (geometryMismatch "layers" cache.ctxK.length snapshot.layers.length)
  reject (snapshot.elementsPerToken != cache.width)
    (geometryMismatch "elements_per_token" cache.width snapshot.elementsPerToken)
  reject (snapshot.sinkSize != cache.sinkSize) (geometryMismatch "sink_size" cache.sinkSize snapshot.sinkSize)
  reject (snapshot.windowSize != cache.windowSize) (geometryMismatch "window_size" cache.windowSize snapshot.windowSize)

def installSnapshot (cache : DFlashContextKvCache) (snapshot : DFlashContextSnapshot) :
    Except String DFlashContextKvCache := do
  cache.validateSnapshotIdentity snapshot
  .ok
    { cache with
      ctxOffset := snapshot.position
      ctxLen := min snapshot.position (snapshot.sinkSize + snapshot.windowSize)
      ctxK := snapshot.layers.map Prod.fst
      ctxV := snapshot.layers.map Prod.snd
      layerRevisions := cache.layerRevisions.map (· + 1)
      revision := cache.revision + 1 }

end DFlashContextKvCache

/-- The rows of one append round: for every layer the keys and the values of `tokens` positions, and
whatever else the buffers hold behind them. -/
structure DFlashRound where
  tokens : ℕ
  layers : List (List Single × List Single)

/-- Append a round to the layers from `layer` on. -/
def DFlashContextKvCache.appendLayers (tokens : ℕ) :
    ℕ → DFlashContextKvCache → List (List Single × List Single) → DFlashContextKvCache
  | _, cache, [] => cache
  | layer, cache, planes :: rest =>
    DFlashContextKvCache.appendLayers tokens (layer + 1) (cache.appendLayer layer planes.1 planes.2 tokens) rest

def DFlashContextKvCache.appendRound (cache : DFlashContextKvCache) (round : DFlashRound) : DFlashContextKvCache :=
  (DFlashContextKvCache.appendLayers round.tokens 0 cache round.layers).advanceRound round.tokens

/-- The planes of an accelerator, and what they were last synchronized with. -/
structure MetalDFlashMirror where
  cachedK : List (List Single)
  cachedV : List (List Single)
  synchronizedIdentity : Option UInt64
  synchronizedRevision : Option UInt64

/-- Append rows to a plane of the accelerator in place. -/
def appendCachedRows (destination source : List Single) (width current sink window added : ℕ) : List Single :=
  let total := current + added
  let maximum := sink + window
  if total ≤ maximum then splice destination (current * width) (source.take (added * width))
  else
    let sinkRows := min sink total
    let sinkFromCurrent := min current sinkRows
    let sinkFromSource := sinkRows - sinkFromCurrent
    let tailRows := min window (total - sinkRows)
    let moved :=
      if tailRows ≤ added then
        splice destination (sinkRows * width) (slice source ((added - tailRows) * width) (tailRows * width))
      else
        let priorRows := tailRows - added
        let priorStart := current - priorRows
        splice (splice destination (sinkRows * width) (slice destination (priorStart * width) (priorRows * width)))
          ((sinkRows + priorRows) * width) (source.take (added * width))
    if 0 < sinkFromSource then splice moved (sinkFromCurrent * width) (source.take (sinkFromSource * width)) else moved

namespace MetalDFlashMirror

/-- Append a round to the accelerator's planes and to the cache. -/
def commitLayers (current tokens : ℕ) :
    ℕ → MetalDFlashMirror × DFlashContextKvCache → List (List Single × List Single) →
      MetalDFlashMirror × DFlashContextKvCache
  | _, state, [] => state
  | layer, (mirror, cache), planes :: rest =>
    commitLayers current tokens (layer + 1)
      ({ mirror with
          cachedK := mirror.cachedK.modify layer fun plane =>
            appendCachedRows plane planes.1 cache.width current cache.sinkSize cache.windowSize tokens
          cachedV := mirror.cachedV.modify layer fun plane =>
            appendCachedRows plane planes.2 cache.width current cache.sinkSize cache.windowSize tokens },
        cache.appendLayer layer planes.1 planes.2 tokens)
      rest

def commitRound (mirror : MetalDFlashMirror) (cache : DFlashContextKvCache) (round : DFlashRound) :
    MetalDFlashMirror × DFlashContextKvCache :=
  let committed := commitLayers cache.ctxLen round.tokens 0 (mirror, cache) round.layers
  let cache := committed.2.advanceRound round.tokens
  ({ committed.1 with synchronizedIdentity := some cache.identity, synchronizedRevision := some cache.revision }, cache)

/-- Copy the planes of the cache over. -/
def synchronizeCache (mirror : MetalDFlashMirror) (cache : DFlashContextKvCache) : MetalDFlashMirror where
  cachedK := mirror.cachedK.mapIdx fun layer plane => splice plane 0 (cache.ctxK.getD layer [])
  cachedV := mirror.cachedV.mapIdx fun layer plane => splice plane 0 (cache.ctxV.getD layer [])
  synchronizedIdentity := some cache.identity
  synchronizedRevision := some cache.revision

def cacheIsSynchronized (mirror : MetalDFlashMirror) (cache : DFlashContextKvCache) : Bool :=
  mirror.synchronizedIdentity == some cache.identity && mirror.synchronizedRevision == some cache.revision

end MetalDFlashMirror

end Muser.Dflash
