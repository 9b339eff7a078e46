import Muser.Dflash.Rounds

/-! # The prompt pipeline

While the target executes one chunk of the prompt, the drafter projects the chunk before it. One projection
is in flight at a time; it is reaped when the next one is enqueued, when its capture slot is needed again,
or at the end. Rows that the context would drop anyway are never projected.
-/

namespace Muser.Dflash

open Engine

def prefillBatchTokens : ℕ := 512

/-- The projections of a drafter: the key and the value row of a layer for a captured target row at a
position. -/
structure Drafter (Hidden : Type) where
  layers : ℕ
  width : ℕ
  project : ℕ → Hidden → ℕ → List Single × List Single
  length_key : ∀ layer row position, (project layer row position).1.length = width
  length_value : ∀ layer row position, (project layer row position).2.length = width

structure PromptCacheStamp where
  identity : UInt64
  revision : UInt64
  ctxLen : ℕ
  ctxOffset : ℕ
deriving DecidableEq

def DFlashContextKvCache.stamp (cache : DFlashContextKvCache) : PromptCacheStamp where
  identity := cache.identity
  revision := cache.revision
  ctxLen := cache.ctxLen
  ctxOffset := cache.ctxOffset

/-- A projection in flight: which rows of which slot it reads, and the position of the first of them. -/
structure PendingPromptChunk where
  cache : PromptCacheStamp
  rows : ℕ
  slot : ℕ
  sourceStart : ℕ
  position : ℕ

structure MetalDFlashForward (Hidden : Type) where
  drafter : Drafter Hidden
  maxContext : ℕ
  cacheCapacity : ℕ
  mirror : MetalDFlashMirror
  promptCaptureSlots : List (List Hidden)
  captureRows : ℕ
  pendingPromptChunk : Option PendingPromptChunk
  promptPipelineActive : Bool

variable {Hidden : Type}

/-- The round a projection brings. -/
def Drafter.round (drafter : Drafter Hidden) (rows : List Hidden) (start : ℕ) : DFlashRound where
  tokens := rows.length
  layers := (List.range drafter.layers).map fun layer =>
    ((rows.zipIdx start).flatMap fun entry => (drafter.project layer entry.1 entry.2).1,
      (rows.zipIdx start).flatMap fun entry => (drafter.project layer entry.1 entry.2).2)

/-- The rows of a chunk inside an interval of positions: where they start in the chunk, their position and
their number. -/
def retainedSubrange (chunkStart chunkEnd : ℕ) (interval : ℕ × ℕ) : Option (ℕ × ℕ × ℕ) :=
  let retainedStart := max chunkStart interval.1
  let retainedEnd := min chunkEnd interval.2
  if retainedStart < retainedEnd then some (retainedStart - chunkStart, retainedStart, retainedEnd - retainedStart) else none

/-- The rows of a prompt chunk that survive in the context. -/
def retainedPromptSubranges (chunkStart chunkEnd prefixRows sinkRows windowRows : ℕ) : List (ℕ × ℕ × ℕ) :=
  let intervals :=
    if prefixRows ≤ sinkRows + windowRows then [(0, prefixRows), (0, 0)]
    else [(0, min sinkRows prefixRows), (prefixRows - min windowRows prefixRows, prefixRows)]
  intervals.filterMap (retainedSubrange chunkStart chunkEnd)

namespace MetalDFlashForward

def new (drafter : Drafter Hidden) (maxContext : ℕ) : MetalDFlashForward Hidden where
  drafter := drafter
  maxContext := maxContext
  cacheCapacity := 0
  mirror := ⟨[], [], none, none⟩
  promptCaptureSlots := []
  captureRows := 0
  pendingPromptChunk := none
  promptPipelineActive := false

def ensureCacheCapacity (assistant : MetalDFlashForward Hidden) (needed : ℕ) : MetalDFlashForward Hidden :=
  if needed ≤ assistant.cacheCapacity then assistant
  else
    let plane := List.replicate (needed * assistant.drafter.width) (0 : Single)
    { assistant with
      mirror := ⟨List.replicate assistant.drafter.layers plane, List.replicate assistant.drafter.layers plane, none, none⟩
      cacheCapacity := needed }

def beginPromptPipeline (assistant : MetalDFlashForward Hidden) (cache : DFlashContextKvCache) (maximumChunkRows : ℕ) :
    Except String (MetalDFlashForward Hidden) :=
  if maximumChunkRows = 0 ∨ assistant.maxContext < maximumChunkRows then
    .error ("DFlash prompt chunk " ++ toString maximumChunkRows ++ " outside 1..=" ++ toString assistant.maxContext)
  else if assistant.promptPipelineActive ∨ assistant.pendingPromptChunk.isSome then
    .error "a DFlash prompt pipeline is already active"
  else if cache.ctxLen ≠ 0 ∨ cache.ctxOffset ≠ 0 then .error "DFlash prompt pipeline requires a fresh context cache"
  else
    let assistant := assistant.ensureCacheCapacity cache.physicalCapacity
    .ok
      { assistant with
        mirror := if assistant.mirror.cacheIsSynchronized cache then
          assistant.mirror else assistant.mirror.synchronizeCache cache
        promptCaptureSlots := [[], []]
        captureRows := maximumChunkRows
        promptPipelineActive := true }

/-- Reap the projection in flight. It reads its slot as late as now. -/
def finishPendingPromptChunk (assistant : MetalDFlashForward Hidden) (cache : DFlashContextKvCache) :
    Except String (MetalDFlashForward Hidden × DFlashContextKvCache) :=
  match assistant.pendingPromptChunk with
  | none => .ok (assistant, cache)
  | some pending =>
    if cache.stamp ≠ pending.cache then .error "DFlash prompt cache changed while a chunk was in flight"
    else
      let rows := ((assistant.promptCaptureSlots.getD pending.slot []).drop pending.sourceStart).take pending.rows
      let round := { assistant.drafter.round rows pending.position with tokens := pending.rows }
      let committed := assistant.mirror.commitRound cache round
      .ok ({ assistant with mirror := committed.1, pendingPromptChunk := none }, committed.2)

/-- Hand a slot to the target, which captures a chunk into it. -/
def capturePromptChunk (assistant : MetalDFlashForward Hidden) (cache : DFlashContextKvCache) (slot : ℕ)
    (chunk : List Hidden) : Except String (MetalDFlashForward Hidden × DFlashContextKvCache) := do
  reject (!assistant.promptPipelineActive || chunk.isEmpty) "DFlash prompt capture requested outside an active pipeline"
  let (assistant, cache) ←
    if (assistant.pendingPromptChunk.map PendingPromptChunk.slot) = some slot then assistant.finishPendingPromptChunk cache
    else .ok (assistant, cache)
  reject (assistant.promptCaptureSlots.length ≤ slot) ("DFlash prompt capture slot " ++ toString slot ++ " is invalid")
  reject (assistant.captureRows < chunk.length) "DFlash prompt capture does not fit its slot"
  .ok ({ assistant with promptCaptureSlots := assistant.promptCaptureSlots.set slot chunk }, cache)

def advancePromptPipelineTo (assistant : MetalDFlashForward Hidden) (cache : DFlashContextKvCache) (absolutePosition : ℕ) :
    Except String (MetalDFlashForward Hidden × DFlashContextKvCache) := do
  reject (!assistant.promptPipelineActive || absolutePosition < cache.ctxOffset) "DFlash prompt pipeline position regressed"
  let (assistant, cache) ← assistant.finishPendingPromptChunk cache
  if absolutePosition = cache.ctxOffset then .ok (assistant, cache)
  else do
    let cache ← cache.advancePromptGap absolutePosition
    .ok
      ({ assistant with
          mirror := { assistant.mirror with
            synchronizedIdentity := some cache.identity
            synchronizedRevision := some cache.revision } }, cache)

def enqueuePromptChunk (assistant : MetalDFlashForward Hidden) (cache : DFlashContextKvCache)
    (slot sourceRows sourceStart outputRows : ℕ) : Except String (MetalDFlashForward Hidden × DFlashContextKvCache) := do
  reject (!assistant.promptPipelineActive || outputRows == 0 || sourceRows < sourceStart + outputRows ||
    assistant.promptCaptureSlots.length ≤ slot) "DFlash prompt enqueue geometry is invalid"
  let (assistant, cache) ← assistant.finishPendingPromptChunk cache
  reject (!assistant.mirror.cacheIsSynchronized cache) "DFlash prompt accelerator mirror lost synchronization"
  .ok ({ assistant with pendingPromptChunk := some ⟨cache.stamp, outputRows, slot, sourceStart, cache.ctxOffset⟩ }, cache)

def finishPromptPipeline (assistant : MetalDFlashForward Hidden) (cache : DFlashContextKvCache) :
    Except String (MetalDFlashForward Hidden × DFlashContextKvCache) := do
  reject (!assistant.promptPipelineActive) "DFlash prompt pipeline is not active"
  let (assistant, cache) ← assistant.finishPendingPromptChunk cache
  .ok ({ assistant with promptPipelineActive := false, promptCaptureSlots := [] }, cache)

def reachPosition (assistant : MetalDFlashForward Hidden) (cache : DFlashContextKvCache) (absoluteStart : ℕ) :
    Except String (MetalDFlashForward Hidden × DFlashContextKvCache) :=
  if cache.ctxOffset ≠ absoluteStart then assistant.advancePromptPipelineTo cache absoluteStart else .ok (assistant, cache)

/-- Enqueue the surviving rows of a captured chunk. -/
def enqueueRetained (slot sourceRows : ℕ) :
    List (ℕ × ℕ × ℕ) → MetalDFlashForward Hidden × DFlashContextKvCache →
      Except String (MetalDFlashForward Hidden × DFlashContextKvCache)
  | [], state => .ok state
  | (sourceStart, absoluteStart, outputRows) :: rest, (assistant, cache) => do
    let (assistant, cache) ← assistant.reachPosition cache absoluteStart
    let state ← assistant.enqueuePromptChunk cache slot sourceRows sourceStart outputRows
    enqueueRetained slot sourceRows rest state

/-- Only chunks with surviving rows, and the last one, are captured. -/
def captureRequired (assistant : MetalDFlashForward Hidden) (cache : DFlashContextKvCache) (slot : ℕ) (required : Bool)
    (chunk : List Hidden) : Except String (MetalDFlashForward Hidden × DFlashContextKvCache) :=
  if required then assistant.capturePromptChunk cache slot chunk else .ok (assistant, cache)

/-- Execute the chunks of a prompt from `offset` on. The scheduler decides how the prompt is cut; the target
leaves one row to capture for every position. -/
def forwardPromptChunks (hidden : ℕ → Hidden) (prefixRows : ℕ) :
    ℕ → ℕ → List ℕ → MetalDFlashForward Hidden × DFlashContextKvCache →
      Except String (MetalDFlashForward Hidden × DFlashContextKvCache)
  | _, _, [], state => .ok state
  | chunkIndex, offset, width :: rest, (assistant, cache) => do
    let retained := retainedPromptSubranges offset (min (offset + width) prefixRows) prefixRows cache.sinkSize
      cache.windowSize
    let slot := chunkIndex % 2
    let (assistant, cache) ← assistant.captureRequired cache slot (!retained.isEmpty || rest.isEmpty)
      ((List.range' offset width).map hidden)
    let state ← enqueueRetained slot width retained (assistant, cache)
    forwardPromptChunks hidden prefixRows (chunkIndex + 1) (offset + width) rest state

/-- Prefill the context with all rows of a prompt but the last. -/
def forwardDflashPromptPipelined (assistant : MetalDFlashForward Hidden) (cache : DFlashContextKvCache)
    (hidden : ℕ → Hidden) (chunks : List ℕ) : Except String (MetalDFlashForward Hidden × DFlashContextKvCache) := do
  reject (chunks.sum == 0) "DFlash prompt pipeline requires tokens and ordered valid capture layers"
  let assistant ← assistant.beginPromptPipeline cache prefillBatchTokens
  let (assistant, cache) ← forwardPromptChunks hidden (chunks.sum - 1) 0 0 chunks (assistant, cache)
  assistant.finishPromptPipeline cache

end MetalDFlashForward

end Muser.Dflash
