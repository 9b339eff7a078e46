import Muser.Dflash.PromptRun

/-! # The context law

A cache holds the sink and the window of the rows it was given, whichever way they came: in rounds of any
size, through the planes of an accelerator, from a snapshot, or through the prompt pipeline.
-/

namespace Muser.Dflash

open Engine MetalDFlashForward

section Pipeline

variable {Hidden : Type} {geometry : DFlashContextGeometry} {drafter : Drafter Hidden} {hidden : ℕ → Hidden}
  {room : ℕ} {positions : List ℕ} {offset reached width prefixRows : ℕ} {assistant : MetalDFlashForward Hidden}
  {cache : DFlashContextKvCache}

/-- The positions enqueued once the prompt is executed up to `reached`. -/
def enqueued (geometry : DFlashContextGeometry) (prefixRows reached : ℕ) : List ℕ :=
  if prefixRows ≤ geometry.sinkSize + geometry.windowSize then List.range' 0 (min reached prefixRows)
  else
    List.range' 0 (min reached geometry.sinkSize) ++
      List.range' (prefixRows - geometry.windowSize) (min reached prefixRows - (prefixRows - geometry.windowSize))

/-- Where the context then stands. -/
def standsAt (geometry : DFlashContextGeometry) (prefixRows reached : ℕ) : ℕ :=
  if prefixRows ≤ geometry.sinkSize + geometry.windowSize then min reached prefixRows
  else if reached ≤ prefixRows - geometry.windowSize then min reached geometry.sinkSize
  else min reached prefixRows

variable (width) in
/-- The rows of a chunk inside an interval are enqueued, if there are any. -/
theorem Flows.enqueueInterval (serves : drafter.Serves geometry)
    (flows : Flows room geometry drafter hidden positions offset assistant cache) {chunkEnd : ℕ} (slot : ℕ)
    (interval : ℕ × ℕ)
    (rest : List (ℕ × ℕ)) (below : slot < 2) (inside : chunkEnd ≤ reached + width)
    (follows : max reached interval.1 < min chunkEnd interval.2 → Follows geometry positions offset (max reached interval.1))
    (captured : max reached interval.1 < min chunkEnd interval.2 →
      assistant.promptCaptureSlots.getD slot [] = (List.range' reached width).map hidden) :
    ∃ assistant' cache',
      enqueueRetained slot width ((interval :: rest).filterMap (retainedSubrange reached chunkEnd)) (assistant, cache) =
        enqueueRetained slot width (rest.filterMap (retainedSubrange reached chunkEnd)) (assistant', cache') ∧
      Flows room geometry drafter hidden
        (positions ++ List.range' (max reached interval.1) (min chunkEnd interval.2 - max reached interval.1))
        (if max reached interval.1 < min chunkEnd interval.2 then min chunkEnd interval.2 else offset) assistant' cache' ∧
      assistant'.promptCaptureSlots = assistant.promptCaptureSlots := by
  rcases Nat.lt_or_ge (max reached interval.1) (min chunkEnd interval.2) with some_ | none_
  · have part : retainedSubrange reached chunkEnd interval = some
        (max reached interval.1 - reached, max reached interval.1, min chunkEnd interval.2 - max reached interval.1) :=
      if_pos some_
    have content : ((assistant.promptCaptureSlots.getD slot []).drop (max reached interval.1 - reached)).take
        (min chunkEnd interval.2 - max reached interval.1) =
        (List.range' (max reached interval.1) (min chunkEnd interval.2 - max reached interval.1)).map hidden := by
      have start : reached + (max reached interval.1 - reached) * 1 = max reached interval.1 := by lia
      rw [captured some_, ← List.map_drop, ← List.map_take, List.drop_range', List.take_range'_of_length_ge (by lia), start]
    obtain ⟨assistant', cache', step, flows', slots⟩ := flows.enqueue serves width
      (rest.filterMap (retainedSubrange reached chunkEnd)) (follows some_) below (Nat.sub_pos_of_lt some_)
      (by lia) content
    rw [Nat.add_sub_cancel' some_.le] at flows'
    rw [List.filterMap_cons_some part, if_pos some_]
    exact ⟨assistant', cache', step, flows', slots⟩
  · have part : retainedSubrange reached chunkEnd interval = none := if_neg (Nat.not_lt.mpr none_)
    rw [List.filterMap_cons_none part, if_neg (Nat.not_lt.mpr none_), Nat.sub_eq_zero_of_le none_, List.range'_zero,
      List.append_nil]
    exact ⟨assistant, cache, rfl, flows, rfl⟩

/-- The positions of an interval below a bound, when the bound moves up. -/
theorem range'_extend (start stop : ℕ) {before after : ℕ} (le : before ≤ after) :
    List.range' start (min before stop - start) ++ List.range' (max before start) (min after stop - max before start) =
      List.range' start (min after stop - start) := by
  rcases Nat.lt_or_ge (max before start) (min after stop) with more | done
  · rcases Nat.le_total before start with early | late
    · rw [Nat.sub_eq_zero_of_le (by omega : min before stop ≤ start), List.range'_zero, List.nil_append, max_eq_right early]
    · rw [max_eq_left late, min_eq_left (by omega : before ≤ stop)]
      have first : start + 1 * (before - start) = before := by omega
      have joined := @List.range'_append start (before - start) (min after stop - before) 1
      rw [first] at joined
      rw [joined]
      congr 1
      omega
  · rw [Nat.sub_eq_zero_of_le done, List.range'_zero, List.append_nil]
    congr 1
    omega

theorem windowEnd_eq (stop prefixRows : ℕ) : min (min stop prefixRows) prefixRows = min stop prefixRows := by
  rw [min_assoc, min_self]

theorem windowStart_eq (prefixRows windowSize : ℕ) : prefixRows - min windowSize prefixRows = prefixRows - windowSize := by
  omega

theorem sinkEnd_eq {stop : ℕ} (exceeds : ¬ prefixRows ≤ geometry.sinkSize + geometry.windowSize) :
    min (min stop prefixRows) (min geometry.sinkSize prefixRows) = min stop geometry.sinkSize := by
  rw [min_eq_left (by omega : geometry.sinkSize ≤ prefixRows), min_assoc,
    min_eq_right (by omega : geometry.sinkSize ≤ prefixRows)]

/-- What a chunk adds to the positions enqueued. -/
theorem enqueued_add (exceeds : ¬ prefixRows ≤ geometry.sinkSize + geometry.windowSize) :
    enqueued geometry prefixRows reached ++
        List.range' (max reached 0) (min (min (reached + width) prefixRows)
          (min geometry.sinkSize prefixRows) - max reached 0) ++
      List.range' (max reached (prefixRows - min geometry.windowSize prefixRows))
        (min (min (reached + width) prefixRows) prefixRows - max reached (prefixRows - min geometry.windowSize prefixRows)) =
      enqueued geometry prefixRows (reached + width) := by
  have front := range'_extend 0 geometry.sinkSize (Nat.le_add_right reached width)
  have back := range'_extend (prefixRows - geometry.windowSize) prefixRows (Nat.le_add_right reached width)
  rw [enqueued, if_neg exceeds, enqueued, if_neg exceeds, sinkEnd_eq exceeds, windowEnd_eq, windowStart_eq, ← back]
  rw [Nat.sub_zero, Nat.sub_zero] at front
  rw [← front]
  -- Either the window has not begun, or the sink is complete.
  rcases Nat.lt_or_ge reached geometry.sinkSize with early | late
  · rw [Nat.sub_eq_zero_of_le (by omega : min reached prefixRows ≤ prefixRows - geometry.windowSize), List.range'_zero,
      List.append_nil, List.nil_append]
  · rw [Nat.sub_eq_zero_of_le (by omega : min (reached + width) geometry.sinkSize ≤ max reached 0), List.range'_zero,
      List.append_nil, List.append_nil, List.append_assoc]

/-- Where the context stands after both intervals of a chunk. -/
theorem standsAt_add (exceeds : ¬ prefixRows ≤ geometry.sinkSize + geometry.windowSize) :
    standsAt geometry prefixRows (reached + width) =
      if max reached (prefixRows - geometry.windowSize) < min (reached + width) prefixRows then
        min (reached + width) prefixRows
      else if reached < min (reached + width) geometry.sinkSize then min (reached + width) geometry.sinkSize
      else standsAt geometry prefixRows reached := by
  have sink := geometry.sink
  have window := geometry.window
  simp only [standsAt, if_neg exceeds, lt_min_iff, max_lt_iff]
  rcases Nat.lt_or_ge (prefixRows - geometry.windowSize) (reached + width) with past | before
  · rw [if_neg (by omega)]
    split
    · rfl
    · next kept =>
      have stopped : prefixRows ≤ reached ∨ width = 0 := by omega
      rw [if_neg (by omega)]
      rcases stopped with past | rfl
      · rw [if_neg (by omega), min_eq_right (by omega), min_eq_right past]
      · rw [if_neg (by omega), Nat.add_zero]
  · rw [if_pos before, if_neg (by omega)]
    split
    · rfl
    · next kept =>
      rw [if_pos (by omega)]
      rcases Nat.lt_or_ge reached geometry.sinkSize with early | late
      · obtain rfl : width = 0 := by omega
        rw [Nat.add_zero]
      · rw [min_eq_right late, min_eq_right (by omega)]

/-- A chunk carries the pipeline on. -/
theorem Flows.enqueueChunk (serves : drafter.Serves geometry)
    (flows : Flows room geometry drafter hidden (enqueued geometry prefixRows reached) (standsAt geometry prefixRows reached)
      assistant cache) {slot : ℕ} (below : slot < 2)
    (captured : retainedPromptSubranges reached (min (reached + width) prefixRows) prefixRows geometry.sinkSize
      geometry.windowSize ≠ [] → assistant.promptCaptureSlots.getD slot [] = (List.range' reached width).map hidden) :
    ∃ assistant' cache',
      enqueueRetained slot width (retainedPromptSubranges reached (min (reached + width) prefixRows) prefixRows
        geometry.sinkSize geometry.windowSize) (assistant, cache) = .ok (assistant', cache') ∧
      Flows room geometry drafter hidden (enqueued geometry prefixRows (reached + width))
        (standsAt geometry prefixRows (reached + width)) assistant' cache' := by
  have sink := geometry.sink
  have window := geometry.window
  have inside : min (reached + width) prefixRows ≤ reached + width := Nat.min_le_left _ _
  have some_ : ∀ {intervals : List (ℕ × ℕ)} {interval : ℕ × ℕ}, interval ∈ intervals →
      max reached interval.1 < min (min (reached + width) prefixRows) interval.2 →
      intervals.filterMap (retainedSubrange reached (min (reached + width) prefixRows)) ≠ [] := by
    intro intervals interval member nonempty empty
    have none_ := List.filterMap_eq_nil_iff.mp empty interval member
    rw [retainedSubrange, if_pos nonempty] at none_
    cases none_
  unfold retainedPromptSubranges at captured ⊢
  dsimp only at captured ⊢
  split
  · next fits =>
    rw [if_pos fits] at captured
    have at_ : standsAt geometry prefixRows reached = min reached prefixRows := if_pos fits
    obtain ⟨first, cache₁, step₁, flows₁, slots₁⟩ := flows.enqueueInterval width serves slot
      (0, prefixRows) [(0, 0)] below inside
      (fun nonempty => .inl (by rw [at_]; dsimp only at nonempty ⊢; omega))
      (fun nonempty => captured (some_ List.mem_cons_self nonempty))
    obtain ⟨second, cache₂, step₂, flows₂, _⟩ := flows₁.enqueueInterval width serves slot
      (0, 0) [] below inside (fun nonempty => absurd nonempty (by dsimp only; omega))
      (fun nonempty => absurd nonempty (by dsimp only; omega))
    refine ⟨second, cache₂, step₁.trans step₂, ?_⟩
    have positionsEq := range'_extend 0 prefixRows (Nat.le_add_right reached width)
    rw [Nat.sub_zero, Nat.sub_zero] at positionsEq
    have offsetEq : standsAt geometry prefixRows (reached + width) = min (reached + width) prefixRows := if_pos fits
    dsimp only at flows₂
    rw [Nat.sub_eq_zero_of_le (by omega : min (min (reached + width) prefixRows) 0 ≤ max reached 0), List.range'_zero,
      List.append_nil, if_neg (by omega : ¬ max reached 0 < min (min (reached + width) prefixRows) 0), enqueued, if_pos fits,
      min_assoc, Nat.min_self, positionsEq] at flows₂
    rw [enqueued, if_pos fits, offsetEq]
    convert flows₂ using 1
    split
    · rfl
    · rw [at_]
      omega
  · next exceeds =>
    rw [if_neg exceeds] at captured
    have length : (enqueued geometry prefixRows reached).length =
        min reached geometry.sinkSize + (min reached prefixRows - (prefixRows - geometry.windowSize)) := by
      rw [enqueued, if_neg exceeds, List.length_append, List.length_range', List.length_range']
    obtain ⟨first, cache₁, step₁, flows₁, slots₁⟩ := flows.enqueueInterval width serves slot
      (0, min geometry.sinkSize prefixRows) [(prefixRows - min geometry.windowSize prefixRows, prefixRows)] below inside
      (fun nonempty => .inl (by
        dsimp only at nonempty ⊢
        rw [standsAt, if_neg exceeds, if_pos (by omega)]
        omega))
      (fun nonempty => captured (some_ List.mem_cons_self nonempty))
    obtain ⟨second, cache₂, step₂, flows₂, _⟩ := flows₁.enqueueInterval width serves slot
      (prefixRows - min geometry.windowSize prefixRows, prefixRows) [] below inside
      (fun nonempty => by
        rw [Follows, List.length_append, length, List.length_range', standsAt, if_neg exceeds]
        dsimp only at nonempty ⊢
        -- The window begins behind the sink, or it goes on.
        rcases Nat.lt_or_ge (prefixRows - geometry.windowSize) reached with later | first
        · left
          rw [if_neg (by omega), if_neg (by omega)]
          omega
        · right
          rw [if_pos first]
          split
          · omega
          · omega)
      (fun nonempty => by
        rw [slots₁]
        exact captured (some_ (List.mem_cons_of_mem _ List.mem_cons_self) nonempty))
    refine ⟨second, cache₂, step₁.trans step₂, ?_⟩
    rw [enqueued_add exceeds] at flows₂
    dsimp only at flows₂
    rwa [windowStart_eq, windowEnd_eq, Nat.max_zero, sinkEnd_eq exceeds, ← standsAt_add exceeds] at flows₂

theorem Flows.bounds (flows : Flows room geometry drafter hidden positions offset assistant cache) :
    cache.sinkSize = geometry.sinkSize ∧ cache.windowSize = geometry.windowSize := by
  cases flows with
  | settled settled | pending settled => exact ⟨settled.keeps.sinkSize, settled.keeps.windowSize⟩

/-- The chunks of a prompt, one after the other. -/
theorem Flows.forwardChunks (serves : drafter.Serves geometry) {chunks : List ℕ} :
    ∀ (index : ℕ) {reached : ℕ} {assistant : MetalDFlashForward Hidden} {cache : DFlashContextKvCache},
      (∀ chunk ∈ chunks, 0 < chunk ∧ chunk ≤ prefillBatchTokens) →
      Flows room geometry drafter hidden (enqueued geometry prefixRows reached) (standsAt geometry prefixRows reached)
        assistant cache →
      ∃ assistant' cache', forwardPromptChunks hidden prefixRows index reached chunks (assistant, cache) =
          .ok (assistant', cache') ∧
        Flows room geometry drafter hidden (enqueued geometry prefixRows (reached + chunks.sum))
          (standsAt geometry prefixRows (reached + chunks.sum)) assistant' cache' := by
  induction chunks with
  | nil =>
    intro index reached assistant cache _ flows
    exact ⟨assistant, cache, rfl, flows⟩
  | cons width rest ih =>
    intro index reached assistant cache sized flows
    obtain ⟨nonempty, fits⟩ := sized width List.mem_cons_self
    obtain ⟨sinkSize, windowSize⟩ := flows.bounds
    have below : index % 2 < 2 := Nat.mod_lt _ (by decide)
    have captured : ∃ assistant' cache', assistant.captureRequired cache (index % 2)
          (!(retainedPromptSubranges reached (min (reached + width) prefixRows) prefixRows geometry.sinkSize
            geometry.windowSize).isEmpty || rest.isEmpty) ((List.range' reached width).map hidden) =
          .ok (assistant', cache') ∧
        Flows room geometry drafter hidden (enqueued geometry prefixRows reached) (standsAt geometry prefixRows reached)
          assistant' cache' ∧
        (retainedPromptSubranges reached (min (reached + width) prefixRows) prefixRows geometry.sinkSize
          geometry.windowSize ≠ [] →
          assistant'.promptCaptureSlots.getD (index % 2) [] = (List.range' reached width).map hidden) := by
      rw [captureRequired]
      split
      · obtain ⟨assistant', cache', step, flows', content⟩ := flows.capture serves below
          (show (List.range' reached width).map hidden ≠ [] by
            rw [← List.length_pos_iff, List.length_map, List.length_range']; exact nonempty)
          (by rw [List.length_map, List.length_range']; exact fits)
        exact ⟨assistant', cache', step, flows', fun _ => content⟩
      · next skipped =>
        refine ⟨assistant, cache, rfl, flows, fun some_ => ?_⟩
        simp [some_] at skipped
    obtain ⟨first, cache₁, capture, flows₁, content⟩ := captured
    obtain ⟨second, cache₂, enqueue, flows₂⟩ := flows₁.enqueueChunk serves below content
    obtain ⟨last, cache₃, step, flows₃⟩ := ih (index + 1) (fun chunk member =>
      sized chunk (List.mem_cons_of_mem _ member)) flows₂
    refine ⟨last, cache₃, ?_, ?_⟩
    · rw [forwardPromptChunks, sinkSize, windowSize]
      simp only [Bind.bind, Except.bind, capture, enqueue, step]
    · rw [List.sum_cons, ← Nat.add_assoc]
      exact flows₃

/-- An accelerator between prompts, with planes of the size it recorded. -/
structure Ready (assistant : MetalDFlashForward Hidden) : Prop where
  inactive : assistant.promptPipelineActive = false
  idle : assistant.pendingPromptChunk = none
  layers : 0 < assistant.cacheCapacity →
    assistant.mirror.cachedK.length = assistant.drafter.layers ∧ assistant.mirror.cachedV.length = assistant.drafter.layers
  keyRoom : ∀ plane ∈ assistant.mirror.cachedK, plane.length = assistant.cacheCapacity * assistant.drafter.width
  valueRoom : ∀ plane ∈ assistant.mirror.cachedV, plane.length = assistant.cacheCapacity * assistant.drafter.width

theorem ready_new (drafter : Drafter Hidden) (maxContext : ℕ) : Ready (.new drafter maxContext) :=
  ⟨rfl, rfl, fun room => absurd room (lt_irrefl 0), fun _ member => absurd member List.not_mem_nil,
    fun _ member => absurd member List.not_mem_nil⟩

theorem Ready.ensure (ready : Ready assistant) (needed : ℕ) :
    Ready (assistant.ensureCacheCapacity needed) ∧ needed ≤ (assistant.ensureCacheCapacity needed).cacheCapacity ∧
      (assistant.ensureCacheCapacity needed).drafter = assistant.drafter := by
  rw [ensureCacheCapacity]
  split
  · next enough => exact ⟨ready, enough, rfl⟩
  · refine ⟨⟨ready.inactive, ready.idle, fun _ => ⟨List.length_replicate, List.length_replicate⟩, ?_, ?_⟩, le_rfl, rfl⟩
    · intro plane member
      rw [List.eq_of_mem_replicate member, List.length_replicate]
    · intro plane member
      rw [List.eq_of_mem_replicate member, List.length_replicate]

/-- Whatever the planes of an accelerator hold, they hold the rows of nothing. -/
theorem MetalDFlashMirror.Allocated.empty {mirror : MetalDFlashMirror} (allocated : mirror.Allocated room geometry) :
    Matches room geometry (fun _ => []) (fun _ => []) mirror := by
  have empty : ∀ {plane : List Single}, plane.length = room →
      Mirrors room geometry.sinkSize geometry.windowSize geometry.elementsPerToken [] plane := by
    intro plane length
    refine ⟨fun _ member => absurd member List.not_mem_nil, allocated.fits, length, ?_⟩
    rw [sinkWindow_of_length_le (Nat.zero_le _), List.length_nil, Nat.zero_min, Nat.zero_mul, List.take_zero,
      List.flatten_nil]
  refine ⟨allocated.keyLayers, allocated.valueLayers, ?_, ?_⟩
  · intro layer below
    rw [List.getD_eq_getElem _ _ (allocated.keyLayers ▸ below)]
    exact empty (allocated.keyRoom _ (List.getElem_mem _))
  · intro layer below
    rw [List.getD_eq_getElem _ _ (allocated.valueLayers ▸ below)]
    exact empty (allocated.valueRoom _ (List.getElem_mem _))

variable (hidden) in
/-- A fresh cache starts a pipeline. -/
theorem Ready.begin_ (serves : drafter.Serves geometry) (ready : Ready assistant) (served : assistant.drafter = drafter)
    (long : prefillBatchTokens ≤ assistant.maxContext) (keeps : Keeps geometry (fun _ => []) (fun _ => []) 0 0 cache) :
    ∃ assistant' room, assistant.beginPromptPipeline cache prefillBatchTokens = .ok assistant' ∧
      Flows room geometry drafter hidden [] 0 assistant' cache := by
  obtain ⟨ready', enough, served'⟩ := ready.ensure cache.physicalCapacity
  have capacity : cache.physicalCapacity = geometry.sinkSize + geometry.windowSize := by
    rw [DFlashContextKvCache.physicalCapacity, keeps.sinkSize, keeps.windowSize]
  have sink := geometry.sink
  obtain ⟨keyLayers, valueLayers⟩ := ready'.layers (by omega)
  have keyRoom := ready'.keyRoom
  have valueRoom := ready'.valueRoom
  rw [served', served, serves.layers] at keyLayers valueLayers
  rw [served', served, serves.width] at keyRoom valueRoom
  have fits : (geometry.sinkSize + geometry.windowSize) * geometry.elementsPerToken ≤
      (assistant.ensureCacheCapacity cache.physicalCapacity).cacheCapacity * geometry.elementsPerToken :=
    Nat.mul_le_mul_right _ (capacity ▸ enough)
  have allocated : (assistant.ensureCacheCapacity cache.physicalCapacity).mirror.Allocated
      ((assistant.ensureCacheCapacity cache.physicalCapacity).cacheCapacity * geometry.elementsPerToken) geometry :=
    ⟨fits, keyLayers, valueLayers, keyRoom, valueRoom⟩
  have begun : assistant.beginPromptPipeline cache prefillBatchTokens = .ok
      { assistant.ensureCacheCapacity cache.physicalCapacity with
        mirror :=
          if (assistant.ensureCacheCapacity cache.physicalCapacity).mirror.cacheIsSynchronized cache then
            (assistant.ensureCacheCapacity cache.physicalCapacity).mirror
          else (assistant.ensureCacheCapacity cache.physicalCapacity).mirror.synchronizeCache cache
        promptCaptureSlots := [[], []]
        captureRows := prefillBatchTokens
        promptPipelineActive := true } := by
    rw [beginPromptPipeline, if_neg (not_or.mpr ⟨by decide, Nat.not_lt.mpr long⟩),
      if_neg (by rw [ready.inactive, ready.idle]; decide), if_neg (by rw [keeps.ctxLen, keeps.ctxOffset]; simp)]
  refine ⟨_, (assistant.ensureCacheCapacity cache.physicalCapacity).cacheCapacity * geometry.elementsPerToken, begun, ?_⟩
  refine Flows.settled ?_ ready'.idle
  refine ⟨served'.trans served, rfl, rfl, rfl, by rw [serves.width], ?_, keeps, ?_⟩
  · dsimp only
    split
    · next synchronized => exact synchronized
    · simp [MetalDFlashMirror.synchronizeCache, MetalDFlashMirror.cacheIsSynchronized]
  · dsimp only
    split
    · exact allocated.empty
    · exact keeps.synchronized allocated

/-- The pipeline ends with what it enqueued. -/
theorem Flows.finish (serves : drafter.Serves geometry)
    (flows : Flows room geometry drafter hidden positions offset assistant cache) :
    ∃ assistant' cache', assistant.finishPromptPipeline cache = .ok (assistant', cache') ∧ Ready assistant' ∧
      Keeps geometry (drafter.keysAt hidden positions)
        (drafter.valuesAt hidden positions) positions.length offset cache' := by
  obtain ⟨active, _, _⟩ := flows.slots
  obtain ⟨assistant', cache', finished, settled, idle, _⟩ := flows.finishPending serves
  refine ⟨{ assistant' with promptPipelineActive := false, promptCaptureSlots := [] }, cache', ?_, ?_, settled.keeps⟩
  · rw [finishPromptPipeline, active, finished]
    rfl
  · have mirrors := settled.mirrors
    have size : room = assistant'.cacheCapacity * assistant'.drafter.width := by rw [settled.served, settled.capacity]
    refine ⟨rfl, idle, fun _ => ?_, ?_, ?_⟩
    · dsimp only
      rw [settled.served, serves.layers]
      exact ⟨mirrors.keyLayers, mirrors.valueLayers⟩
    · intro plane member
      obtain ⟨layer, below, rfl⟩ := List.getElem_of_mem member
      rw [← List.getD_eq_getElem _ [] below, (mirrors.key layer (mirrors.keyLayers ▸ below)).length, size]
    · intro plane member
      obtain ⟨layer, below, rfl⟩ := List.getElem_of_mem member
      rw [← List.getD_eq_getElem _ [] below, (mirrors.value layer (mirrors.valueLayers ▸ below)).length, size]

/-- At the end of a prompt the sink and the window of its rows were enqueued. -/
theorem enqueued_all (geometry : DFlashContextGeometry) (prefixRows : ℕ) :
    enqueued geometry prefixRows (prefixRows + 1) =
      sinkWindow geometry.sinkSize geometry.windowSize (List.range' 0 prefixRows) := by
  rw [enqueued]
  split
  · next fits =>
    rw [Nat.min_eq_right (Nat.le_succ prefixRows), sinkWindow_of_length_le (by rw [List.length_range']; exact fits)]
  · next exceeds =>
    rw [sinkWindow, List.length_range', List.take_range'_of_length_ge (by lia), List.drop_range', max_eq_right (by lia),
      Nat.min_eq_right (by lia), Nat.min_eq_right (by lia), Nat.zero_add, Nat.mul_one]

theorem standsAt_all (geometry : DFlashContextGeometry) (prefixRows : ℕ) :
    standsAt geometry prefixRows (prefixRows + 1) = prefixRows := by
  rw [standsAt]
  split
  · lia
  · rw [if_neg (by lia)]
    lia

variable (hidden) in
/-- A prompt in any chunks leaves the rows of its prefix, up to those the context drops. -/
theorem Ready.forward (serves : drafter.Serves geometry) (ready : Ready assistant) (served : assistant.drafter = drafter)
    (long : prefillBatchTokens ≤ assistant.maxContext) (keeps : Keeps geometry (fun _ => []) (fun _ => []) 0 0 cache)
    {chunks : List ℕ} (nonempty : chunks ≠ []) (sized : ∀ chunk ∈ chunks, 0 < chunk ∧ chunk ≤ prefillBatchTokens) :
    ∃ assistant' cache', assistant.forwardDflashPromptPipelined cache hidden chunks = .ok (assistant', cache') ∧
      Ready assistant' ∧
      Keeps geometry
        (drafter.keysAt hidden (sinkWindow geometry.sinkSize geometry.windowSize (List.range' 0 (chunks.sum - 1))))
        (drafter.valuesAt hidden (sinkWindow geometry.sinkSize geometry.windowSize (List.range' 0 (chunks.sum - 1))))
        (min (chunks.sum - 1) (geometry.sinkSize + geometry.windowSize)) (chunks.sum - 1) cache' := by
  have some_ : 0 < chunks.sum := by
    obtain ⟨chunk, rest, rfl⟩ := List.exists_cons_of_ne_nil nonempty
    have := (sized chunk List.mem_cons_self).1
    rw [List.sum_cons]
    lia
  obtain ⟨begun, room, beginEq, flows⟩ := ready.begin_ hidden serves served long keeps
  have start : Flows room geometry drafter hidden (enqueued geometry (chunks.sum - 1) 0)
      (standsAt geometry (chunks.sum - 1) 0) begun cache := by
    have none_ : enqueued geometry (chunks.sum - 1) 0 = [] := by
      rw [enqueued, Nat.zero_min, Nat.zero_min, Nat.zero_sub]
      split
      · rfl
      · rfl
    have zero : standsAt geometry (chunks.sum - 1) 0 = 0 := by
      rw [standsAt, Nat.zero_min, Nat.zero_min, ite_self, ite_self]
    rw [none_, zero]
    exact flows
  obtain ⟨run, cache₁, runEq, flows₁⟩ := start.forwardChunks serves 0 sized
  obtain ⟨finished, cache₂, finishEq, ready', keeps'⟩ := flows₁.finish serves
  have whole : 0 + chunks.sum = chunks.sum - 1 + 1 := by lia
  rw [whole, enqueued_all, standsAt_all, length_sinkWindow, List.length_range'] at keeps'
  refine ⟨finished, cache₂, ?_, ready', keeps'⟩
  rw [forwardDflashPromptPipelined, beq_eq_false_iff_ne.mpr some_.ne']
  simp only [Bind.bind, Except.bind, reject, Bool.false_eq_true, if_false, beginEq, runEq, finishEq]

end Pipeline

section Rounds

variable {geometry : DFlashContextGeometry} {keys values : ℕ → List (List Single)} {count offset : ℕ}
  {cache : DFlashContextKvCache} {rounds : List DFlashRound}

/-- The key rows that rounds brought for a layer. -/
def appendedKeys (geometry : DFlashContextGeometry) (rounds : List DFlashRound) (layer : ℕ) : List (List Single) :=
  rounds.flatMap fun round => round.keys geometry.elementsPerToken layer

def appendedValues (geometry : DFlashContextGeometry) (rounds : List DFlashRound) (layer : ℕ) : List (List Single) :=
  rounds.flatMap fun round => round.values geometry.elementsPerToken layer

def appendedRows (rounds : List DFlashRound) : ℕ := (rounds.map DFlashRound.tokens).sum

/-- A cache that was given nothing. -/
def freshCache (geometry : DFlashContextGeometry) (identity : UInt64) : DFlashContextKvCache :=
  .new geometry.layers geometry.elementsPerToken geometry.sinkSize geometry.windowSize identity

/-- Rounds of any sizes, one after the other. -/
theorem Keeps.appendRounds (keeps : Keeps geometry keys values count offset cache)
    (complete : ∀ round ∈ rounds, round.Complete geometry) :
    Keeps geometry (fun layer => keys layer ++ appendedKeys geometry rounds layer)
      (fun layer => values layer ++ appendedValues geometry rounds layer) (count + appendedRows rounds)
      (offset + appendedRows rounds) (rounds.foldl DFlashContextKvCache.appendRound cache) := by
  induction rounds generalizing keys values count offset cache with
  | nil => simpa [appendedKeys, appendedValues, appendedRows] using keeps
  | cons round rest ih =>
    have step := keeps.appendRound (complete round List.mem_cons_self)
    have run := ih step fun round member => complete round (List.mem_cons_of_mem _ member)
    have rows : appendedRows (round :: rest) = round.tokens + appendedRows rest := by
      rw [appendedRows, List.map_cons, List.sum_cons, appendedRows]
    rw [rows, ← Nat.add_assoc, ← Nat.add_assoc, List.foldl_cons]
    apply run.congr
    · intro layer _
      rw [appendedKeys, appendedKeys, List.flatMap_cons, List.append_assoc]
    · intro layer _
      rw [appendedValues, appendedValues, List.flatMap_cons, List.append_assoc]

variable (geometry) in
theorem keeps_rounds (identity : UInt64) (complete : ∀ round ∈ rounds, round.Complete geometry) :
    Keeps geometry (appendedKeys geometry rounds) (appendedValues geometry rounds) (appendedRows rounds)
      (appendedRows rounds) (rounds.foldl DFlashContextKvCache.appendRound (freshCache geometry identity)) := by
  have run := (keeps_new geometry identity).appendRounds complete
  rwa [Nat.zero_add] at run

variable {mirror : MetalDFlashMirror} {room : ℕ}

/-- An accelerator that commits the rounds agrees with the cache all along. -/
theorem Matches.commitRounds
    (keeps : Keeps geometry keys values count offset cache) (held : Matches room geometry keys values mirror)
    (complete : ∀ round ∈ rounds, round.Complete geometry) :
    (rounds.foldl (fun state round => state.1.commitRound state.2 round) (mirror, cache)).2 =
        rounds.foldl DFlashContextKvCache.appendRound cache ∧
      Matches room geometry (fun layer => keys layer ++ appendedKeys geometry rounds layer)
        (fun layer => values layer ++ appendedValues geometry rounds layer)
        (rounds.foldl (fun state round => state.1.commitRound state.2 round) (mirror, cache)).1 := by
  induction rounds generalizing keys values count offset cache mirror with
  | nil => exact ⟨rfl, by simpa [appendedKeys, appendedValues] using held⟩
  | cons round rest ih =>
    have first := complete round List.mem_cons_self
    have step : mirror.commitRound cache round = ((mirror.commitRound cache round).1, cache.appendRound round) :=
      Prod.ext rfl (MetalDFlashMirror.commitRound_cache mirror)
    obtain ⟨cacheEq, run⟩ := ih (keeps.appendRound first) (Matches.commitRound keeps held first)
      fun round member => complete round (List.mem_cons_of_mem _ member)
    rw [List.foldl_cons, List.foldl_cons, step]
    refine ⟨cacheEq, run.congr ?_ ?_⟩
    · intro layer _
      rw [appendedKeys, appendedKeys, List.flatMap_cons, List.append_assoc]
    · intro layer _
      rw [appendedValues, appendedValues, List.flatMap_cons, List.append_assoc]

/-- The planes of an accelerator start with what the cache holds. -/
theorem Matches.agree (keeps : Keeps geometry keys values count offset cache)
    (held : Matches room geometry keys values mirror) {layer : ℕ} (below : layer < geometry.layers) :
    (mirror.cachedK.getD layer []).take (cache.ctxLen * geometry.elementsPerToken) = cache.ctxK.getD layer [] ∧
      (mirror.cachedV.getD layer []).take (cache.ctxLen * geometry.elementsPerToken) = cache.ctxV.getD layer [] := by
  have key := (held.key layer below).front
  have value := (held.value layer below).front
  rw [keeps.keyCount layer below] at key
  rw [keeps.valueCount layer below] at value
  rw [keeps.ctxLen, key, value, (keeps.key layer below).plane_eq, (keeps.value layer below).plane_eq]
  exact ⟨rfl, rfl⟩

/-- A row of a plane is the row of its position. -/
theorem Retains.row {sink window width : ℕ} {history : List (List Single)} {plane : List Single}
    (retains : Retains sink window width history plane) {row : ℕ} (held : row < min history.length (sink + window)) :
    history[retainedPosition sink window history.length row]? = some (slice plane (row * width) width) := by
  have get := getElem?_sinkWindow held
  have inside : row < (sinkWindow sink window history).length := by rwa [length_sinkWindow]
  rw [← get, retains.plane_eq, List.getElem?_eq_getElem inside,
    slice_flatten (sized_sinkWindow retains.sized) (List.getElem?_eq_getElem inside)]

/-- What a cache holds after rounds of any sizes. -/
structure ContextLaw (geometry : DFlashContextGeometry) (rounds : List DFlashRound)
    (cache : DFlashContextKvCache) : Prop where
  ctxOffset : cache.ctxOffset = appendedRows rounds
  ctxLen : cache.ctxLen = min (appendedRows rounds) (geometry.sinkSize + geometry.windowSize)
  keys : ∀ layer < geometry.layers, cache.ctxK.getD layer [] =
    ((appendedKeys geometry rounds layer).take (min (appendedRows rounds) geometry.sinkSize) ++
      (appendedKeys geometry rounds layer).drop
        (appendedRows rounds - min geometry.windowSize (appendedRows rounds - geometry.sinkSize))).flatten
  values : ∀ layer < geometry.layers, cache.ctxV.getD layer [] =
    ((appendedValues geometry rounds layer).take (min (appendedRows rounds) geometry.sinkSize) ++
      (appendedValues geometry rounds layer).drop
        (appendedRows rounds - min geometry.windowSize (appendedRows rounds - geometry.sinkSize))).flatten
  keyRow : ∀ layer < geometry.layers, ∀ row < cache.ctxLen,
    (appendedKeys geometry rounds layer)[cache.retainedAbsolutePosition row]? =
      some (slice (cache.ctxK.getD layer []) (row * geometry.elementsPerToken) geometry.elementsPerToken)
  valueRow : ∀ layer < geometry.layers, ∀ row < cache.ctxLen,
    (appendedValues geometry rounds layer)[cache.retainedAbsolutePosition row]? =
      some (slice (cache.ctxV.getD layer []) (row * geometry.elementsPerToken) geometry.elementsPerToken)
  slot_lt : ∀ position, cache.physicalSlot position < geometry.sinkSize + geometry.windowSize
  slot_injective : ∀ row < cache.ctxLen, ∀ other < cache.ctxLen,
    cache.physicalSlot (cache.retainedAbsolutePosition row) = cache.physicalSlot (cache.retainedAbsolutePosition other) →
      row = other

theorem Keeps.retainedAbsolutePosition (keeps : Keeps geometry keys values count count cache) (row : ℕ) :
    cache.retainedAbsolutePosition row = retainedPosition geometry.sinkSize geometry.windowSize count row := by
  have sinkRows : min cache.ctxLen cache.sinkSize = min count geometry.sinkSize := by
    rw [keeps.ctxLen, keeps.sinkSize]
    lia
  rw [DFlashContextKvCache.retainedAbsolutePosition, retainedPosition, sinkRows, keeps.ctxLen, keeps.ctxOffset]

theorem Keeps.physicalSlot (keeps : Keeps geometry keys values count offset cache) (position : ℕ) :
    cache.physicalSlot position = ringSlot geometry.sinkSize geometry.windowSize position := by
  rw [DFlashContextKvCache.physicalSlot, ringSlot, keeps.sinkSize, keeps.windowSize]

theorem contextLaw (identity : UInt64) (complete : ∀ round ∈ rounds, round.Complete geometry) :
    ContextLaw geometry rounds (rounds.foldl DFlashContextKvCache.appendRound (freshCache geometry identity)) := by
  have keeps := keeps_rounds geometry identity complete
  refine ⟨keeps.ctxOffset, keeps.ctxLen, ?_, ?_, ?_, ?_, ?_, ?_⟩
  · intro layer below
    have length := keeps.keyCount layer below
    rw [(keeps.key layer below).plane_eq, sinkWindow_eq, length]
  · intro layer below
    have length := keeps.valueCount layer below
    rw [(keeps.value layer below).plane_eq, sinkWindow_eq, length]
  · intro layer below row held
    have length := keeps.keyCount layer below
    have get := (keeps.key layer below).row (show row < _ by rw [length]; exact keeps.ctxLen ▸ held)
    rwa [length, ← keeps.retainedAbsolutePosition] at get
  · intro layer below row held
    have length := keeps.valueCount layer below
    have get := (keeps.value layer below).row (show row < _ by rw [length]; exact keeps.ctxLen ▸ held)
    rwa [length, ← keeps.retainedAbsolutePosition] at get
  · intro position
    rw [keeps.physicalSlot]
    exact ringSlot_lt geometry.window position
  · intro row held other held' same
    rw [keeps.retainedAbsolutePosition, keeps.retainedAbsolutePosition, keeps.physicalSlot, keeps.physicalSlot] at same
    rw [keeps.ctxLen] at held held'
    exact ringSlot_injective held held' same

end Rounds

section Snapshots

variable {geometry : DFlashContextGeometry} {keys values : ℕ → List (List Single)} {count offset : ℕ}
  {cache other : DFlashContextKvCache}

/-- A cache of this geometry, whatever it holds. -/
structure HasGeometry (geometry : DFlashContextGeometry) (cache : DFlashContextKvCache) : Prop where
  layers : cache.ctxK.length = geometry.layers
  width : cache.width = geometry.elementsPerToken
  sinkSize : cache.sinkSize = geometry.sinkSize
  windowSize : cache.windowSize = geometry.windowSize

theorem Keeps.snapshot_valid (keeps : Keeps geometry keys values count count cache) (some_ : 0 < count)
    (vectors : ∀ plane ∈ cache.ctxK, plane.length < usizeBound) : cache.snapshot.validate = .ok () := by
  have size : cache.ctxLen * geometry.elementsPerToken < usizeBound := by
    have first : 0 < cache.ctxK.length := keeps.keyLayers ▸ geometry.layer
    rw [← keeps.length_key geometry.layer, List.getD_eq_getElem _ _ first]
    exact vectors _ (List.getElem_mem first)
  have layers : cache.ctxK.zip cache.ctxV ≠ [] := by
    rw [← List.length_pos_iff, List.length_zip, keeps.keyLayers, keeps.valueLayers, Nat.min_self]
    exact geometry.layer
  have geometry_ : ¬ (cache.snapshot.position = 0 ∨ cache.snapshot.elementsPerToken = 0 ∨ cache.snapshot.layers = [] ∨
      cache.snapshot.sinkSize = 0 ∨ cache.snapshot.windowSize = 0) := by
    rintro (position | width | none_ | sink | window)
    · exact some_.ne' (keeps.ctxOffset.symm.trans position)
    · exact geometry.row.ne' (keeps.width.symm.trans width)
    · exact layers none_
    · exact geometry.sink.ne' (keeps.sinkSize.symm.trans sink)
    · exact geometry.window.ne' (keeps.windowSize.symm.trans window)
  have lengths : ((cache.ctxK.zip cache.ctxV).any fun layer => layer.1.length != cache.ctxLen * geometry.elementsPerToken ||
      layer.2.length != cache.ctxLen * geometry.elementsPerToken) = false := by
    rw [List.any_eq_false]
    intro layer member
    obtain ⟨index, below, rfl⟩ := List.getElem_of_mem member
    rw [List.length_zip, keeps.keyLayers, keeps.valueLayers, Nat.min_self] at below
    have key := keeps.length_key below
    have value := keeps.length_value below
    rw [List.getD_eq_getElem _ _ (keeps.keyLayers ▸ below)] at key
    rw [List.getD_eq_getElem _ _ (keeps.valueLayers ▸ below)] at value
    simp [List.getElem_zip, key, value]
  have rows : min cache.snapshot.position (cache.snapshot.sinkSize + cache.snapshot.windowSize) = cache.ctxLen := by
    simp only [DFlashContextKvCache.snapshot, keeps.ctxOffset, keeps.sinkSize, keeps.windowSize, keeps.ctxLen]
  have width : cache.snapshot.elementsPerToken = geometry.elementsPerToken := keeps.width
  rw [DFlashContextSnapshot.validate, if_neg geometry_, rows, width, checkedMul, if_pos size]
  dsimp only
  exact if_neg (Bool.eq_false_iff.mp lengths)

/-- A snapshot carries the rows and the position over. -/
theorem Keeps.install (keeps : Keeps geometry keys values count count cache) (some_ : 0 < count)
    (vectors : ∀ plane ∈ cache.ctxK, plane.length < usizeBound) (same : HasGeometry geometry other) :
    ∃ installed, other.installSnapshot cache.snapshot = .ok installed ∧ installed.ctxK = cache.ctxK ∧
      installed.ctxV = cache.ctxV ∧ installed.ctxLen = cache.ctxLen ∧ installed.ctxOffset = cache.ctxOffset := by
  have layers : (cache.ctxK.zip cache.ctxV).length = other.ctxK.length := by
    rw [List.length_zip, keeps.keyLayers, keeps.valueLayers, Nat.min_self, same.layers]
  have identity : other.validateSnapshotIdentity cache.snapshot = .ok () := by
    rw [DFlashContextKvCache.validateSnapshotIdentity, keeps.snapshot_valid some_ vectors]
    simp [DFlashContextKvCache.snapshot, reject, layers, keeps.width, keeps.sinkSize, keeps.windowSize, same.width,
      same.sinkSize, same.windowSize, Bind.bind, Except.bind]
  have installed : other.installSnapshot cache.snapshot = .ok
      { other with
        ctxOffset := cache.snapshot.position
        ctxLen := min cache.snapshot.position (cache.snapshot.sinkSize + cache.snapshot.windowSize)
        ctxK := cache.snapshot.layers.map Prod.fst
        ctxV := cache.snapshot.layers.map Prod.snd
        layerRevisions := other.layerRevisions.map (· + 1)
        revision := other.revision + 1 } := by
    rw [DFlashContextKvCache.installSnapshot, identity]
    rfl
  refine ⟨_, installed, ?_, ?_, ?_, rfl⟩
  · exact List.map_fst_zip (by rw [keeps.keyLayers, keeps.valueLayers])
  · exact List.map_snd_zip (by rw [keeps.keyLayers, keeps.valueLayers])
  · simp only [DFlashContextKvCache.snapshot, keeps.ctxOffset, keeps.sinkSize, keeps.windowSize, keeps.ctxLen]

end Snapshots

section Law

variable {geometry : DFlashContextGeometry} {keys values keys' values' : ℕ → List (List Single)}
  {count count' offset offset' : ℕ} {cache cache' : DFlashContextKvCache}

/-- The same planes, length and position. -/
structure SameContext (cache cache' : DFlashContextKvCache) : Prop where
  ctxK : cache.ctxK = cache'.ctxK
  ctxV : cache.ctxV = cache'.ctxV
  ctxLen : cache.ctxLen = cache'.ctxLen
  ctxOffset : cache.ctxOffset = cache'.ctxOffset

/-- What is retained decides what a cache holds. -/
theorem Keeps.same (keeps : Keeps geometry keys values count offset cache)
    (keeps' : Keeps geometry keys' values' count' offset cache')
    (keysEq : ∀ layer < geometry.layers, sinkWindow geometry.sinkSize geometry.windowSize (keys layer) =
      sinkWindow geometry.sinkSize geometry.windowSize (keys' layer))
    (valuesEq : ∀ layer < geometry.layers, sinkWindow geometry.sinkSize geometry.windowSize (values layer) =
      sinkWindow geometry.sinkSize geometry.windowSize (values' layer)) : SameContext cache cache' := by
  have key : cache.ctxK = cache'.ctxK := by
    apply List.ext_getElem (keeps.keyLayers.trans keeps'.keyLayers.symm)
    intro layer inside inside'
    have below : layer < geometry.layers := keeps.keyLayers ▸ inside
    rw [← List.getD_eq_getElem _ [] inside, ← List.getD_eq_getElem _ [] inside', (keeps.key layer below).plane_eq,
      (keeps'.key layer below).plane_eq, keysEq layer below]
  have value : cache.ctxV = cache'.ctxV := by
    apply List.ext_getElem (keeps.valueLayers.trans keeps'.valueLayers.symm)
    intro layer inside inside'
    have below : layer < geometry.layers := keeps.valueLayers ▸ inside
    rw [← List.getD_eq_getElem _ [] inside, ← List.getD_eq_getElem _ [] inside', (keeps.value layer below).plane_eq,
      (keeps'.value layer below).plane_eq, valuesEq layer below]
  have rows := congrArg List.length (keysEq 0 geometry.layer)
  rw [length_sinkWindow, length_sinkWindow, keeps.keyCount 0 geometry.layer, keeps'.keyCount 0 geometry.layer] at rows
  exact ⟨key, value, by rw [keeps.ctxLen, keeps'.ctxLen, rows], by rw [keeps.ctxOffset, keeps'.ctxOffset]⟩

theorem sinkWindow_idem {α : Type} {sink window : ℕ} (rows : List α) :
    sinkWindow sink window (sinkWindow sink window rows) = sinkWindow sink window rows :=
  sinkWindow_of_length_le (by rw [length_sinkWindow]; exact Nat.min_le_right _ _)

/-- The prompt pipeline ends where one round of the whole prefix ends. -/
theorem Ready.forward_same {Hidden : Type} {drafter : Drafter Hidden} {assistant : MetalDFlashForward Hidden}
    (serves : drafter.Serves geometry) (ready : Ready assistant) (served : assistant.drafter = drafter)
    (long : prefillBatchTokens ≤ assistant.maxContext) (identity : UInt64) (hidden : ℕ → Hidden) {chunks : List ℕ}
    (nonempty : chunks ≠ []) (sized : ∀ chunk ∈ chunks, 0 < chunk ∧ chunk ≤ prefillBatchTokens) :
    ∃ assistant' cache', assistant.forwardDflashPromptPipelined (freshCache geometry identity) hidden chunks =
        .ok (assistant', cache') ∧ Ready assistant' ∧
      SameContext cache'
        ((freshCache geometry identity).appendRound (drafter.roundAt hidden 0 (chunks.sum - 1))) := by
  have fresh := keeps_new geometry identity
  obtain ⟨assistant', cache', run, ready', keeps⟩ := ready.forward hidden serves served long fresh nonempty sized
  have empty : Keeps geometry (drafter.keysAt hidden []) (drafter.valuesAt hidden []) ([] : List ℕ).length 0
      (freshCache geometry identity) := fresh
  have whole := empty.appendAt serves 0 (chunks.sum - 1)
  rw [List.nil_append, Nat.zero_add] at whole
  refine ⟨assistant', cache', run, ready', keeps.same whole ?_ ?_⟩
  · intro layer _
    rw [Drafter.keysAt, Drafter.keysAt, map_sinkWindow, sinkWindow_idem]
  · intro layer _
    rw [Drafter.valuesAt, Drafter.valuesAt, map_sinkWindow, sinkWindow_idem]

/-- The sink and the window of the rows appended, whichever way they came. -/
theorem sink_and_window (geometry : DFlashContextGeometry) (identity : UInt64) (rounds : List DFlashRound)
    (complete : ∀ round ∈ rounds, round.Complete geometry) :
    ContextLaw geometry rounds (rounds.foldl DFlashContextKvCache.appendRound (freshCache geometry identity)) ∧
      -- An accelerator synchronized at any time commits the rounds after it.
      (∀ before after, rounds = before ++ after → ∀ room mirror, MetalDFlashMirror.Allocated room geometry mirror →
        let cache := before.foldl DFlashContextKvCache.appendRound (freshCache geometry identity)
        let committed := after.foldl (fun state round => state.1.commitRound state.2 round)
          (mirror.synchronizeCache cache, cache)
        committed.2 = rounds.foldl DFlashContextKvCache.appendRound (freshCache geometry identity) ∧
          ∀ layer < geometry.layers,
            (committed.1.cachedK.getD layer []).take (committed.2.ctxLen * geometry.elementsPerToken) =
                committed.2.ctxK.getD layer [] ∧
              (committed.1.cachedV.getD layer []).take (committed.2.ctxLen * geometry.elementsPerToken) =
                committed.2.ctxV.getD layer []) ∧
      -- A snapshot of rows carries them over.
      (0 < appendedRows rounds → ∀ other, HasGeometry geometry other →
        let cache := rounds.foldl DFlashContextKvCache.appendRound (freshCache geometry identity)
        (∀ plane ∈ cache.ctxK, plane.length < usizeBound) →
          ∃ installed, other.installSnapshot cache.snapshot = .ok installed ∧ SameContext installed cache) ∧
      -- A prompt in any chunks leaves what one round of its prefix leaves.
      ∀ {Hidden : Type} (assistant : MetalDFlashForward Hidden) (hidden : ℕ → Hidden) (chunks : List ℕ),
        assistant.drafter.Serves geometry → Ready assistant → prefillBatchTokens ≤ assistant.maxContext → chunks ≠ [] →
        (∀ chunk ∈ chunks, 0 < chunk ∧ chunk ≤ prefillBatchTokens) →
        ∃ assistant' cache', assistant.forwardDflashPromptPipelined (freshCache geometry identity) hidden chunks =
            .ok (assistant', cache') ∧ Ready assistant' ∧
          SameContext cache' ((freshCache geometry identity).appendRound
            (assistant.drafter.roundAt hidden 0 (chunks.sum - 1))) := by
  have keeps := keeps_rounds geometry identity complete
  refine ⟨contextLaw identity complete, ?_, ?_, ?_⟩
  · rintro before after rfl room mirror allocated
    have early := keeps_rounds geometry identity (show ∀ round ∈ before, round.Complete geometry from
      fun round member => complete round (List.mem_append_left _ member))
    have later : ∀ round ∈ after, round.Complete geometry := fun round member =>
      complete round (List.mem_append_right _ member)
    obtain ⟨cacheEq, held⟩ := Matches.commitRounds early (early.synchronized allocated) later
    refine ⟨by rw [cacheEq, List.foldl_append], fun layer below => ?_⟩
    have now := early.appendRounds later
    rw [← cacheEq] at now
    exact held.agree now below
  · intro some_ other same cache vectors
    obtain ⟨installed, install, key, value, ctxLen, ctxOffset⟩ := keeps.install some_ vectors same
    exact ⟨installed, install, key, value, ctxLen, ctxOffset⟩
  · intro Hidden assistant hidden chunks serves ready long nonempty sized
    exact ready.forward_same serves rfl long identity hidden nonempty sized

/-- A layer of one element a row, a sink and a window of one row. -/
def narrow : DFlashContextGeometry := ⟨1, 1, 1, 1, by decide, by decide, by decide, by decide⟩

def narrowRounds : List DFlashRound := [⟨2, [([1, 2], [3, 4])]⟩, ⟨1, [([5], [6])]⟩]

/-- A drafter whose keys tell the position. -/
def narrowDrafter : Drafter Single where
  layers := 1
  width := 1
  project _ row position := ([row + UInt32.ofNat position], [row])
  length_key _ _ _ := rfl
  length_value _ _ _ := rfl

theorem sink_and_window_narrow :
    ContextLaw narrow narrowRounds (narrowRounds.foldl DFlashContextKvCache.appendRound (freshCache narrow 1)) ∧
      (∃ installed, (freshCache narrow 2).installSnapshot
          (narrowRounds.foldl DFlashContextKvCache.appendRound (freshCache narrow 1)).snapshot = .ok installed ∧
        SameContext installed (narrowRounds.foldl DFlashContextKvCache.appendRound (freshCache narrow 1))) ∧
      ∃ assistant cache, (MetalDFlashForward.new narrowDrafter 512).forwardDflashPromptPipelined (freshCache narrow 1)
          (fun position => UInt32.ofNat position) [2, 3] = .ok (assistant, cache) ∧ Ready assistant ∧
        SameContext cache ((freshCache narrow 1).appendRound
          (narrowDrafter.roundAt (fun position => UInt32.ofNat position) 0 4)) := by
  have complete : ∀ round ∈ narrowRounds, round.Complete narrow := by
    intro round member
    rcases List.mem_cons.mp member with rfl | member
    · exact ⟨rfl, by decide, by decide⟩
    · obtain rfl := List.mem_singleton.mp member
      exact ⟨rfl, by decide, by decide⟩
  have vectors : ∀ plane ∈ (narrowRounds.foldl DFlashContextKvCache.appendRound (freshCache narrow 1)).ctxK,
      plane.length < usizeBound := by decide
  obtain ⟨law, _, snapshot, prompt⟩ := sink_and_window narrow 1 narrowRounds complete
  exact ⟨law, snapshot (by decide) (freshCache narrow 2) ⟨rfl, rfl, rfl, rfl⟩ vectors,
    prompt (MetalDFlashForward.new narrowDrafter 512) (fun position => UInt32.ofNat position) [2, 3] ⟨rfl, rfl⟩
      (ready_new narrowDrafter 512) (by decide) (by decide) (by decide)⟩

/-- A snapshot of no rows is refused. -/
theorem empty_snapshot_refused :
    ¬ ∃ installed, (freshCache narrow 2).installSnapshot
        (([] : List DFlashRound).foldl DFlashContextKvCache.appendRound (freshCache narrow 1)).snapshot = .ok installed ∧
      SameContext installed (([] : List DFlashRound).foldl DFlashContextKvCache.appendRound (freshCache narrow 1)) := by
  rintro ⟨installed, install, _⟩
  have refused : (freshCache narrow 2).installSnapshot (freshCache narrow 1).snapshot =
      .error "invalid DFlash context snapshot geometry" := rfl
  rw [List.foldl_nil, refused] at install
  cases install

end Law

end Muser.Dflash
