import Muser.Dflash.Prompt

/-! # The prompt pipeline keeps the context law

Between two operations the pipeline holds the rows of the positions it enqueued, up to the projection in
flight. What it enqueued after a whole prompt is what the sink and the window retain of it.
-/

namespace Muser.Dflash

open Engine MetalDFlashForward

theorem rowsIn_flatten {width : ℕ} {rows : List (List Single)} (sized : ∀ row ∈ rows, row.length = width) :
    rowsIn width rows.length rows.flatten = rows := by
  apply List.ext_getElem
  · rw [rowsIn, List.length_map, List.length_range]
  · intro index _ below
    simp only [rowsIn, List.getElem_map, List.getElem_range]
    exact slice_flatten sized (List.getElem?_eq_getElem below)

theorem zipIdx_range' {α : Type} (value : ℕ → α) (start count : ℕ) :
    ((List.range' start count).map value).zipIdx start = (List.range' start count).map fun position =>
    (value position, position) := by
  induction count generalizing start with
  | zero => rfl
  | succ count ih => rw [List.range'_succ, List.map_cons, List.zipIdx_cons, ih, List.map_cons]

variable {Hidden : Type} {geometry : DFlashContextGeometry} {drafter : Drafter Hidden} {hidden : ℕ → Hidden}

namespace Drafter

/-- The key rows of a layer for the rows of some positions. -/
def keysAt (drafter : Drafter Hidden) (hidden : ℕ → Hidden) (positions : List ℕ) (layer : ℕ) : List (List Single) :=
  positions.map fun position => (drafter.project layer (hidden position) position).1

def valuesAt (drafter : Drafter Hidden) (hidden : ℕ → Hidden) (positions : List ℕ) (layer : ℕ) : List (List Single) :=
  positions.map fun position => (drafter.project layer (hidden position) position).2

/-- A drafter for caches of this geometry. -/
structure Serves (drafter : Drafter Hidden) (geometry : DFlashContextGeometry) : Prop where
  layers : drafter.layers = geometry.layers
  width : drafter.width = geometry.elementsPerToken

/-- The round of consecutive positions. -/
def roundAt (drafter : Drafter Hidden) (hidden : ℕ → Hidden) (start count : ℕ) : DFlashRound :=
  drafter.round ((List.range' start count).map hidden) start

theorem roundAt_layers (drafter : Drafter Hidden) (start count : ℕ) :
    (drafter.roundAt hidden start count).layers = (List.range drafter.layers).map fun layer =>
      ((drafter.keysAt hidden (List.range' start count) layer).flatten,
        (drafter.valuesAt hidden (List.range' start count) layer).flatten) := by
  rw [roundAt, round, zipIdx_range']
  simp only [keysAt, valuesAt, List.flatMap, List.map_map, Function.comp_def]

theorem roundAt_tokens (drafter : Drafter Hidden) (start count : ℕ) :
    (drafter.roundAt hidden start count).tokens = count := by
  rw [roundAt, round, List.length_map, List.length_range']

variable (hidden) in
theorem sized_keysAt (drafter : Drafter Hidden) (positions : List ℕ) (layer : ℕ) :
    ∀ row ∈ drafter.keysAt hidden positions layer, row.length = drafter.width := by
  intro row member
  obtain ⟨position, _, rfl⟩ := List.mem_map.mp member
  exact drafter.length_key _ _ _

variable (hidden) in
theorem sized_valuesAt (drafter : Drafter Hidden) (positions : List ℕ) (layer : ℕ) :
    ∀ row ∈ drafter.valuesAt hidden positions layer, row.length = drafter.width := by
  intro row member
  obtain ⟨position, _, rfl⟩ := List.mem_map.mp member
  exact drafter.length_value _ _ _

theorem length_keysAt (drafter : Drafter Hidden) (positions : List ℕ) (layer : ℕ) :
    (drafter.keysAt hidden positions layer).length = positions.length := List.length_map _

theorem length_valuesAt (drafter : Drafter Hidden) (positions : List ℕ) (layer : ℕ) :
    (drafter.valuesAt hidden positions layer).length = positions.length := List.length_map _

theorem keysAt_append (drafter : Drafter Hidden) (front back : List ℕ) (layer : ℕ) :
    drafter.keysAt hidden (front ++ back) layer = drafter.keysAt hidden front layer ++ drafter.keysAt hidden back layer :=
  List.map_append

theorem valuesAt_append (drafter : Drafter Hidden) (front back : List ℕ) (layer : ℕ) :
    drafter.valuesAt hidden (front ++ back) layer =
      drafter.valuesAt hidden front layer ++ drafter.valuesAt hidden back layer :=
  List.map_append

namespace Serves

theorem roundAt_planes (serves : drafter.Serves geometry) {start count layer : ℕ} (below : layer < geometry.layers) :
    (drafter.roundAt hidden start count).keys geometry.elementsPerToken layer =
        drafter.keysAt hidden (List.range' start count) layer ∧
      (drafter.roundAt hidden start count).values geometry.elementsPerToken layer =
        drafter.valuesAt hidden (List.range' start count) layer := by
  have keys := rowsIn_flatten (drafter.sized_keysAt hidden (List.range' start count) layer)
  have values := rowsIn_flatten (drafter.sized_valuesAt hidden (List.range' start count) layer)
  rw [length_keysAt, List.length_range', serves.width] at keys
  rw [length_valuesAt, List.length_range', serves.width] at values
  rw [DFlashRound.keys, DFlashRound.values, roundAt_tokens, roundAt_layers,
    List.getD_eq_getElem _ _ (by rw [List.length_map, List.length_range, serves.layers]; exact below), List.getElem_map,
    List.getElem_range, keys, values]
  exact ⟨rfl, rfl⟩

variable (hidden) in
theorem complete (serves : drafter.Serves geometry) (start count : ℕ) :
    (drafter.roundAt hidden start count).Complete geometry := by
  refine ⟨?_, ?_, ?_⟩
  · rw [roundAt_layers, List.length_map, List.length_range, serves.layers]
  · intro planes member
    rw [roundAt_layers] at member
    obtain ⟨layer, _, rfl⟩ := List.mem_map.mp member
    rw [roundAt_tokens, length_flatten_of_sizes (sized_keysAt _ drafter _ layer), length_keysAt,
      List.length_range', serves.width]
  · intro planes member
    rw [roundAt_layers] at member
    obtain ⟨layer, _, rfl⟩ := List.mem_map.mp member
    rw [roundAt_tokens, length_flatten_of_sizes (sized_valuesAt _ drafter _ layer), length_valuesAt, List.length_range',
      serves.width]

end Serves

end Drafter

section Append

variable {keys values keys' values' : ℕ → List (List Single)} {positions : List ℕ} {count offset : ℕ}
  {cache : DFlashContextKvCache}
  {mirror : MetalDFlashMirror} {room : ℕ}

theorem Keeps.congr (keeps : Keeps geometry keys values count offset cache)
    (keysEq : ∀ layer < geometry.layers, keys layer = keys' layer)
    (valuesEq : ∀ layer < geometry.layers, values layer = values' layer) : Keeps geometry keys' values' count offset cache :=
  { keeps with
    keyCount := fun layer below => keysEq layer below ▸ keeps.keyCount layer below
    valueCount := fun layer below => valuesEq layer below ▸ keeps.valueCount layer below
    key := fun layer below => keysEq layer below ▸ keeps.key layer below
    value := fun layer below => valuesEq layer below ▸ keeps.value layer below }

theorem Matches.congr (held : Matches room geometry keys values mirror)
    (keysEq : ∀ layer < geometry.layers, keys layer = keys' layer)
    (valuesEq : ∀ layer < geometry.layers, values layer = values' layer) : Matches room geometry keys' values' mirror :=
  { held with
    key := fun layer below => keysEq layer below ▸ held.key layer below
    value := fun layer below => valuesEq layer below ▸ held.value layer below }

/-- The rows of the next positions are appended. -/
theorem Keeps.appendAt (serves : drafter.Serves geometry) (start rows : ℕ)
    (keeps : Keeps geometry (drafter.keysAt hidden positions) (drafter.valuesAt hidden positions) positions.length
      offset cache) :
    Keeps geometry (drafter.keysAt hidden (positions ++ List.range' start rows))
      (drafter.valuesAt hidden (positions ++ List.range' start rows)) (positions ++ List.range' start rows).length
      (offset + rows) (cache.appendRound (drafter.roundAt hidden start rows)) := by
  have appended := keeps.appendRound (serves.complete hidden start rows)
  rw [drafter.roundAt_tokens] at appended
  rw [List.length_append, List.length_range']
  apply appended.congr
  · intro layer below
    rw [(serves.roundAt_planes below).1, drafter.keysAt_append]
  · intro layer below
    rw [(serves.roundAt_planes below).2, drafter.valuesAt_append]

theorem Matches.commitAt (serves : drafter.Serves geometry) (start rows : ℕ)
    (keeps : Keeps geometry (drafter.keysAt hidden positions) (drafter.valuesAt hidden positions)
      positions.length offset cache)
    (held : Matches room geometry (drafter.keysAt hidden positions) (drafter.valuesAt hidden positions) mirror) :
    Matches room geometry (drafter.keysAt hidden (positions ++ List.range' start rows))
      (drafter.valuesAt hidden (positions ++ List.range' start rows))
      (mirror.commitRound cache (drafter.roundAt hidden start rows)).1 := by
  apply (Matches.commitRound keeps held (serves.complete hidden start rows)).congr
  · intro layer below
    rw [(serves.roundAt_planes below).1, drafter.keysAt_append]
  · intro layer below
    rw [(serves.roundAt_planes below).2, drafter.valuesAt_append]

end Append

/-- The pipeline with nothing in flight, after the rows of `positions`, before `offset`. -/
structure Settled (room : ℕ) (geometry : DFlashContextGeometry) (drafter : Drafter Hidden) (hidden : ℕ → Hidden)
    (positions : List ℕ)
    (offset : ℕ) (assistant : MetalDFlashForward Hidden) (cache : DFlashContextKvCache) : Prop where
  served : assistant.drafter = drafter
  active : assistant.promptPipelineActive = true
  slots : assistant.promptCaptureSlots.length = 2
  captureRows : assistant.captureRows = prefillBatchTokens
  capacity : assistant.cacheCapacity * drafter.width = room
  synchronized : assistant.mirror.cacheIsSynchronized cache = true
  keeps : Keeps geometry (drafter.keysAt hidden positions) (drafter.valuesAt hidden positions) positions.length offset cache
  mirrors : Matches room geometry (drafter.keysAt hidden positions) (drafter.valuesAt hidden positions) assistant.mirror

/-- The pipeline after the rows of `positions` were enqueued, before `offset`. -/
inductive Flows (room : ℕ) (geometry : DFlashContextGeometry) (drafter : Drafter Hidden) (hidden : ℕ → Hidden) :
    List ℕ → ℕ → MetalDFlashForward Hidden → DFlashContextKvCache → Prop
  | settled {positions offset assistant cache}
      (settled : Settled room geometry drafter hidden positions offset assistant cache)
      (idle : assistant.pendingPromptChunk = none) : Flows room geometry drafter hidden positions offset assistant cache
  | pending {positions offset assistant cache} {pending : PendingPromptChunk}
      (settled : Settled room geometry drafter hidden positions offset assistant cache)
      (inFlight : assistant.pendingPromptChunk = some pending) (stamp : pending.cache = cache.stamp)
      (position : pending.position = offset) (nonempty : 0 < pending.rows)
      (captured : ((assistant.promptCaptureSlots.getD pending.slot []).drop pending.sourceStart).take pending.rows =
        (List.range' offset pending.rows).map hidden) :
      Flows room geometry drafter hidden (positions ++ List.range' offset pending.rows) (offset + pending.rows)
        assistant cache

variable {room : ℕ} {positions : List ℕ} {offset : ℕ} {assistant : MetalDFlashForward Hidden} {cache : DFlashContextKvCache}

/-- Whatever is in flight is reaped as it was enqueued. -/
theorem Flows.finishPending (serves : drafter.Serves geometry)
    (flows : Flows room geometry drafter hidden positions offset assistant cache) :
    ∃ assistant' cache', assistant.finishPendingPromptChunk cache = .ok (assistant', cache') ∧
      Settled room geometry drafter hidden positions offset assistant' cache' ∧ assistant'.pendingPromptChunk = none ∧
      assistant'.promptCaptureSlots = assistant.promptCaptureSlots := by
  cases flows with
  | settled settled idle =>
    refine ⟨assistant, cache, ?_, settled, idle, rfl⟩
    rw [finishPendingPromptChunk, idle]
  | @pending positions offset _ _ pending settled inFlight stamp position nonempty captured =>
    have round : { assistant.drafter.round (((assistant.promptCaptureSlots.getD pending.slot []).drop
          pending.sourceStart).take pending.rows) pending.position with tokens := pending.rows } =
        drafter.roundAt hidden offset pending.rows := by
      rw [captured, settled.served, position]
      simp only [Drafter.roundAt, Drafter.round, List.length_map, List.length_range']
    refine ⟨{ assistant with
        mirror := (assistant.mirror.commitRound cache (drafter.roundAt hidden offset pending.rows)).1
        pendingPromptChunk := none }, cache.appendRound (drafter.roundAt hidden offset pending.rows), ?_, ?_, rfl, rfl⟩
    · rw [finishPendingPromptChunk, inFlight]
      dsimp only
      rw [if_neg (not_not.mpr stamp.symm), round, MetalDFlashMirror.commitRound_cache]
    · refine ⟨settled.served, settled.active, settled.slots, settled.captureRows, settled.capacity, ?_, ?_, ?_⟩
      · rw [← assistant.mirror.commitRound_cache]
        simp [MetalDFlashMirror.commitRound, MetalDFlashMirror.cacheIsSynchronized]
      · exact settled.keeps.appendAt serves offset pending.rows
      · exact Matches.commitAt serves offset pending.rows settled.keeps settled.mirrors

theorem Settled.capture (settled : Settled room geometry drafter hidden positions offset assistant cache) (slot : ℕ)
    (chunk : List Hidden) :
    Settled room geometry drafter hidden positions offset
      { assistant with promptCaptureSlots := assistant.promptCaptureSlots.set slot chunk } cache :=
  { settled with slots := List.length_set.trans settled.slots }

theorem Flows.slots (flows : Flows room geometry drafter hidden positions offset assistant cache) :
    assistant.promptPipelineActive = true ∧ assistant.promptCaptureSlots.length = 2 ∧
      assistant.captureRows = prefillBatchTokens := by
  cases flows with
  | settled settled | pending settled => exact ⟨settled.active, settled.slots, settled.captureRows⟩

/-- A slot is captured into only after the projection that reads it. -/
theorem Flows.capture (serves : drafter.Serves geometry)
    (flows : Flows room geometry drafter hidden positions offset assistant cache) {slot : ℕ} (below : slot < 2)
    {chunk : List Hidden} (nonempty : chunk ≠ []) (fits : chunk.length ≤ prefillBatchTokens) :
    ∃ assistant' cache', assistant.capturePromptChunk cache slot chunk = .ok (assistant', cache') ∧
      Flows room geometry drafter hidden positions offset assistant' cache' ∧
      assistant'.promptCaptureSlots.getD slot [] = chunk := by
  have captured : ∀ {slots : List (List Hidden)}, slots.length = 2 → (slots.set slot chunk).getD slot [] = chunk := by
    intro slots length
    rw [List.getD_eq_getElem _ _ (by rw [List.length_set, length]; exact below), List.getElem_set_self]
  obtain ⟨active, slots, captureRows⟩ := flows.slots
  have open_ : (!assistant.promptPipelineActive || chunk.isEmpty) = false := by
    rw [active, Bool.not_true, Bool.false_or]
    exact Bool.eq_false_iff.mpr fun empty => nonempty (List.isEmpty_iff.mp empty)
  rcases Decidable.em (assistant.pendingPromptChunk.map PendingPromptChunk.slot = some slot) with busy | free
  · obtain ⟨assistant', cache', finished, settled, idle, _⟩ := flows.finishPending serves
    refine ⟨{ assistant' with promptCaptureSlots := assistant'.promptCaptureSlots.set slot chunk }, cache', ?_,
      .settled (settled.capture slot chunk) idle, captured settled.slots⟩
    rw [capturePromptChunk, open_, if_pos busy, finished]
    simp [reject, Bind.bind, Except.bind, settled.slots, settled.captureRows, Nat.not_le.mpr below, Nat.not_lt.mpr fits]
  · refine ⟨{ assistant with promptCaptureSlots := assistant.promptCaptureSlots.set slot chunk }, cache, ?_, ?_,
      captured slots⟩
    · rw [capturePromptChunk, open_, if_neg free]
      simp [reject, Bind.bind, Except.bind, slots, captureRows, Nat.not_le.mpr below, Nat.not_lt.mpr fits]
    · cases flows with
      | settled settled idle => exact .settled (settled.capture slot chunk) idle
      | pending settled inFlight stamp position rows read =>
        apply Flows.pending (settled.capture slot chunk) inFlight stamp position rows
        rw [inFlight, Option.map_some, Option.some_inj] at free
        rw [List.getD_eq_getElem?_getD, List.getElem?_set_ne (Ne.symm free), ← List.getD_eq_getElem?_getD]
        exact read

/-- The rows that follow are either the next ones, or the first of the window behind a full sink. -/
def Follows (geometry : DFlashContextGeometry) (positions : List ℕ) (offset next : ℕ) : Prop :=
  next = offset ∨ offset < next ∧ offset = geometry.sinkSize ∧ positions.length = geometry.sinkSize

theorem Settled.gap (settled : Settled room geometry drafter hidden positions offset assistant cache) {next : ℕ}
    (later : offset < next) (sink : offset = geometry.sinkSize) (full : positions.length = geometry.sinkSize) :
    ∃ cache', cache.advancePromptGap next = .ok cache' ∧
      Settled room geometry drafter hidden positions next
        { assistant with
          mirror := { assistant.mirror with
            synchronizedIdentity := some cache'.identity
            synchronizedRevision := some cache'.revision } } cache' := by
  have keeps := settled.keeps
  have ctxLen : cache.ctxLen = geometry.sinkSize := by rw [keeps.ctxLen, full, Nat.min_eq_left (Nat.le_add_right _ _)]
  have allowed : ¬ (next ≤ cache.ctxOffset ∨ cache.ctxLen ≠ min cache.sinkSize cache.ctxOffset ∨
      cache.ctxOffset ≠ min cache.sinkSize cache.ctxOffset) := by
    rw [ctxLen, keeps.ctxOffset, keeps.sinkSize, sink, Nat.min_self]
    omega
  refine ⟨{ cache with ctxOffset := next, revision := cache.revision + 1 }, ?_, ?_⟩
  · rw [DFlashContextKvCache.advancePromptGap, if_neg allowed]
  · refine ⟨settled.served, settled.active, settled.slots, settled.captureRows, settled.capacity, ?_, ?_, ?_⟩
    · simp [MetalDFlashMirror.cacheIsSynchronized]
    · exact { keeps with ctxOffset := rfl }
    · exact { settled.mirrors with }

/-- Before rows are enqueued everything in front of them is reaped, and the context stands at their position. -/
theorem Flows.reach (serves : drafter.Serves geometry)
    (flows : Flows room geometry drafter hidden positions offset assistant cache) {next : ℕ}
    (follows : Follows geometry positions offset next) :
    ∃ assistant' cache', assistant.reachPosition cache next = .ok (assistant', cache') ∧
      Settled room geometry drafter hidden positions next assistant' cache' ∧ assistant'.pendingPromptChunk = none ∧
      assistant'.promptCaptureSlots = assistant.promptCaptureSlots := by
  have later : offset ≤ next := by
    rcases follows with rfl | ⟨later, -, -⟩
    · exact le_rfl
    · exact later.le
  have before : cache.ctxOffset ≤ next := by
    cases flows with
    | settled settled => rw [settled.keeps.ctxOffset]; exact later
    | pending settled => rw [settled.keeps.ctxOffset]; omega
  rw [reachPosition]
  split
  · next apart =>
    obtain ⟨active, _, _⟩ := flows.slots
    obtain ⟨assistant', cache', finished, settled, idle, slots⟩ := flows.finishPending serves
    have step : assistant.advancePromptPipelineTo cache next =
        if next = cache'.ctxOffset then .ok (assistant', cache')
        else (cache'.advancePromptGap next).bind fun moved => .ok
          ({ assistant' with
              mirror := { assistant'.mirror with
                synchronizedIdentity := some moved.identity
                synchronizedRevision := some moved.revision } }, moved) := by
      rw [advancePromptPipelineTo, active, finished]
      simp [reject, Bind.bind, Except.bind, Nat.not_lt.mpr before]
    rw [step]
    rcases follows with rfl | ⟨beyond, sink, full⟩
    · rw [if_pos settled.keeps.ctxOffset.symm]
      exact ⟨assistant', cache', rfl, settled, idle, slots⟩
    · obtain ⟨moved, gap, settled'⟩ := settled.gap beyond sink full
      rw [if_neg (by rw [settled.keeps.ctxOffset]; omega), gap]
      exact ⟨_, moved, rfl, settled', idle, slots⟩
  · next here =>
    have here : cache.ctxOffset = next := not_not.mp here
    refine ⟨assistant, cache, rfl, ?_⟩
    cases flows with
    | settled settled idle =>
      have here : next = offset := here.symm.trans settled.keeps.ctxOffset
      exact ⟨here ▸ settled, idle, rfl⟩
    | pending settled _ _ _ nonempty =>
      have := settled.keeps.ctxOffset
      omega

/-- Rows of a captured chunk are enqueued. -/
theorem Flows.enqueue (serves : drafter.Serves geometry)
    (flows : Flows room geometry drafter hidden positions offset assistant cache)
    {slot sourceStart next rows : ℕ} (sourceRows : ℕ) (rest : List (ℕ × ℕ × ℕ))
    (follows : Follows geometry positions offset next)
    (below : slot < 2) (nonempty : 0 < rows) (inside : sourceStart + rows ≤ sourceRows)
    (captured : ((assistant.promptCaptureSlots.getD slot []).drop sourceStart).take rows =
      (List.range' next rows).map hidden) :
    ∃ assistant' cache', enqueueRetained slot sourceRows ((sourceStart, next, rows) :: rest) (assistant, cache) =
        enqueueRetained slot sourceRows rest (assistant', cache') ∧
      Flows room geometry drafter hidden (positions ++ List.range' next rows) (next + rows) assistant' cache' ∧
      assistant'.promptCaptureSlots = assistant.promptCaptureSlots := by
  obtain ⟨reached, cache', reach, settled, idle, slots⟩ := flows.reach serves follows
  have finished : reached.finishPendingPromptChunk cache' = .ok (reached, cache') := by
    rw [finishPendingPromptChunk, idle]
  refine ⟨{ reached with pendingPromptChunk := some ⟨cache'.stamp, rows, slot, sourceStart, cache'.ctxOffset⟩ }, cache',
    ?_, ?_, slots⟩
  · rw [enqueueRetained, reach]
    have enqueued : reached.enqueuePromptChunk cache' slot sourceRows sourceStart rows =
        .ok ({ reached with pendingPromptChunk := some ⟨cache'.stamp, rows, slot, sourceStart, cache'.ctxOffset⟩ },
          cache') := by
      rw [enqueuePromptChunk, finished, settled.active, settled.slots]
      simp [reject, Bind.bind, Except.bind, settled.active, settled.synchronized, nonempty.ne', Nat.not_lt.mpr inside,
        Nat.not_le.mpr below]
    simp only [Bind.bind, Except.bind, enqueued]
  · have enqueued : Settled room geometry drafter hidden positions next
        { reached with pendingPromptChunk := some ⟨cache'.stamp, rows, slot, sourceStart, cache'.ctxOffset⟩ } cache' :=
      ⟨settled.served, settled.active, settled.slots, settled.captureRows, settled.capacity, settled.synchronized,
        settled.keeps, settled.mirrors⟩
    have inFlight : { reached with
          pendingPromptChunk := some ⟨cache'.stamp, rows, slot, sourceStart, cache'.ctxOffset⟩ }.pendingPromptChunk =
        some ⟨cache'.stamp, rows, slot, sourceStart, cache'.ctxOffset⟩ := rfl
    refine Flows.pending enqueued inFlight rfl settled.keeps.ctxOffset nonempty ?_
    rw [slots]
    exact captured

end Muser.Dflash
