import Mathlib.Data.List.GetD
import Muser.Dflash.Retention

/-! # Runs of rounds

What a cache retains is a function of the rows it was given, and not of the rounds they came in.
-/

namespace Muser.Dflash

open Engine

/-- The rows at the front of a plane. -/
def rowsIn (width tokens : ℕ) (plane : List Single) : List (List Single) :=
  (List.range tokens).map fun row => slice plane (row * width) width

theorem brings_rowsIn {width tokens : ℕ} {plane : List Single} (room : tokens * width ≤ plane.length) :
    Brings width tokens (rowsIn width tokens plane) plane where
  sized row member := by
    obtain ⟨index, below, rfl⟩ := List.mem_map.mp member
    apply length_slice
    calc index * width + width = (index + 1) * width := by rw [Nat.add_mul, Nat.one_mul]
      _ ≤ tokens * width := Nat.mul_le_mul_right width (List.mem_range.mp below)
      _ ≤ plane.length := room
  count := by rw [rowsIn, List.length_map, List.length_range]
  front := (flatten_slices width tokens plane).symm

structure DFlashContextGeometry where
  layers : ℕ
  elementsPerToken : ℕ
  sinkSize : ℕ
  windowSize : ℕ
  layer : 0 < layers
  row : 0 < elementsPerToken
  sink : 0 < sinkSize
  window : 0 < windowSize

variable {geometry : DFlashContextGeometry}

namespace DFlashRound

/-- The key rows of a layer. -/
def keys (round : DFlashRound) (width layer : ℕ) : List (List Single) :=
  rowsIn width round.tokens (round.layers.getD layer ([], [])).1

def values (round : DFlashRound) (width layer : ℕ) : List (List Single) :=
  rowsIn width round.tokens (round.layers.getD layer ([], [])).2

/-- A round that brings its rows for every layer. -/
structure Complete (geometry : DFlashContextGeometry) (round : DFlashRound) : Prop where
  layers : round.layers.length = geometry.layers
  keyRoom : ∀ planes ∈ round.layers, round.tokens * geometry.elementsPerToken ≤ planes.1.length
  valueRoom : ∀ planes ∈ round.layers, round.tokens * geometry.elementsPerToken ≤ planes.2.length

end DFlashRound

namespace DFlashContextKvCache

section Layers

variable {cache : DFlashContextKvCache} {tokens layer : ℕ}

/-- The keys and the values of a layer are cut in the same place, as they are of one length. -/
theorem appendLayer_eq {key value k v : List Single} (keyEq : cache.ctxK.getD layer [] = key)
    (valueEq : cache.ctxV.getD layer [] = value) (same : key.length = value.length)
    (keyRoom : tokens * cache.width ≤ k.length) (valueRoom : tokens * cache.width ≤ v.length) :
    cache.appendLayer layer k v tokens =
      cache.setLayer layer (appendPlane cache.sinkSize cache.windowSize cache.width tokens key k)
        (appendPlane cache.sinkSize cache.windowSize cache.width tokens value v) := by
  have total : (value ++ v.take (tokens * cache.width)).length = (key ++ k.take (tokens * cache.width)).length := by
    rw [List.length_append, List.length_append, List.length_take_of_le keyRoom, List.length_take_of_le valueRoom, same]
  rw [appendLayer, keyEq, valueEq, appendPlane, appendPlane]
  dsimp only
  rw [total]
  split
  · rfl
  · split
    · rfl
    · rfl

theorem appendLayers_planes {planes : List (List Single × List Single)} :
    ∀ {cache : DFlashContextKvCache} {layer : ℕ} {frontK restK frontV restV : List (List Single)},
      cache.ctxK = frontK ++ restK → cache.ctxV = frontV ++ restV → frontK.length = layer → frontV.length = layer →
      restK.length = planes.length → restV.map List.length = restK.map List.length →
      (∀ plane ∈ planes, tokens * cache.width ≤ plane.1.length) →
      (∀ plane ∈ planes, tokens * cache.width ≤ plane.2.length) →
      ∃ revisions, appendLayers tokens layer cache planes =
        { cache with
          ctxK := frontK ++ List.zipWith (fun key plane =>
            appendPlane cache.sinkSize cache.windowSize cache.width tokens key plane.1) restK planes
          ctxV := frontV ++ List.zipWith (fun value plane =>
            appendPlane cache.sinkSize cache.windowSize cache.width tokens value plane.2) restV planes
          layerRevisions := revisions } := by
  induction planes with
  | nil =>
    intro cache layer frontK restK frontV restV keyEq valueEq _ _ keyLength lengths _ _
    rw [List.length_nil, List.length_eq_zero_iff] at keyLength
    subst keyLength
    rw [List.map_nil, List.map_eq_nil_iff] at lengths
    subst lengths
    refine ⟨cache.layerRevisions, ?_⟩
    rw [appendLayers, List.zipWith_nil_left, List.zipWith_nil_left, ← keyEq, ← valueEq]
  | cons plane planes ih =>
    intro cache layer frontK restK frontV restV keyEq valueEq keyFront valueFront keyLength lengths keyRoom valueRoom
    obtain ⟨key, restK, rfl⟩ : ∃ key rest, restK = key :: rest := List.exists_cons_of_length_eq_add_one keyLength
    obtain ⟨value, restV, rfl⟩ : ∃ value rest, restV = value :: rest := by
      cases restV with
      | nil => simp at lengths
      | cons value restV => exact ⟨value, restV, rfl⟩
    rw [List.map_cons, List.map_cons, List.cons.injEq] at lengths
    have at_front : ∀ (front : List (List Single)) (plane : List Single) (rest : List (List Single)),
        (front ++ plane :: rest).getD front.length [] = plane := by
      intro front plane rest
      rw [List.getD_append_right _ _ _ _ le_rfl, Nat.sub_self, List.getD_cons_zero]
    have replaced : ∀ (front : List (List Single)) (plane next : List Single) (rest : List (List Single)),
        (front ++ plane :: rest).set front.length next = (front ++ [next]) ++ rest := by
      intro front plane next rest
      rw [List.set_append_right _ _ le_rfl, Nat.sub_self, List.set_cons_zero, List.append_assoc, List.singleton_append]
    have keyAt : cache.ctxK.getD layer [] = key := by rw [keyEq, ← keyFront, at_front]
    have valueAt : cache.ctxV.getD layer [] = value := by rw [valueEq, ← valueFront, at_front]
    have step := appendLayer_eq keyAt valueAt lengths.1.symm (keyRoom plane List.mem_cons_self)
      (valueRoom plane List.mem_cons_self)
    obtain ⟨revisions, rest⟩ := @ih (cache.appendLayer layer plane.1 plane.2 tokens) (layer + 1)
      (frontK ++ [appendPlane cache.sinkSize cache.windowSize cache.width tokens key plane.1]) restK
      (frontV ++ [appendPlane cache.sinkSize cache.windowSize cache.width tokens value plane.2]) restV
      (by rw [step, setLayer, keyEq, ← keyFront, replaced]) (by rw [step, setLayer, valueEq, ← valueFront, replaced])
      (by rw [List.length_append, keyFront, List.length_singleton])
      (by rw [List.length_append, valueFront, List.length_singleton])
      (Nat.succ.inj keyLength) lengths.2
      (by rw [step]; exact fun plane member => keyRoom plane (List.mem_cons_of_mem _ member))
      (by rw [step]; exact fun plane member => valueRoom plane (List.mem_cons_of_mem _ member))
    refine ⟨revisions, ?_⟩
    rw [appendLayers, rest, step, List.zipWith_cons_cons, List.zipWith_cons_cons, List.append_assoc, List.append_assoc,
      List.singleton_append, List.singleton_append]
    rfl

end Layers

end DFlashContextKvCache

/-- A cache that retains what every layer was given. -/
structure Keeps (geometry : DFlashContextGeometry) (keys values : ℕ → List (List Single)) (count offset : ℕ)
    (cache : DFlashContextKvCache) : Prop where
  sinkSize : cache.sinkSize = geometry.sinkSize
  windowSize : cache.windowSize = geometry.windowSize
  width : cache.width = geometry.elementsPerToken
  ctxLen : cache.ctxLen = min count (geometry.sinkSize + geometry.windowSize)
  ctxOffset : cache.ctxOffset = offset
  keyLayers : cache.ctxK.length = geometry.layers
  valueLayers : cache.ctxV.length = geometry.layers
  keyCount : ∀ layer < geometry.layers, (keys layer).length = count
  valueCount : ∀ layer < geometry.layers, (values layer).length = count
  key : ∀ layer < geometry.layers, Retains geometry.sinkSize geometry.windowSize geometry.elementsPerToken (keys layer)
    (cache.ctxK.getD layer [])
  value : ∀ layer < geometry.layers, Retains geometry.sinkSize geometry.windowSize geometry.elementsPerToken (values layer)
    (cache.ctxV.getD layer [])

variable {keys values : ℕ → List (List Single)} {count offset : ℕ} {cache : DFlashContextKvCache} {round : DFlashRound}

variable (geometry) in
theorem keeps_new (identity : UInt64) :
    Keeps geometry (fun _ => []) (fun _ => []) 0 0
      (.new geometry.layers geometry.elementsPerToken geometry.sinkSize geometry.windowSize identity) := by
  have empty : Retains geometry.sinkSize geometry.windowSize geometry.elementsPerToken [] [] :=
    ⟨fun row member => absurd member List.not_mem_nil, by simp [sinkWindow]⟩
  have plane : ∀ layer < geometry.layers, (List.replicate geometry.layers ([] : List Single)).getD layer [] = [] :=
    fun layer below => List.getD_replicate _ below
  refine ⟨rfl, rfl, rfl, (Nat.zero_min _).symm, rfl, List.length_replicate, List.length_replicate, fun _ _ => rfl,
    fun _ _ => rfl, ?_, ?_⟩
  · intro layer below
    exact (plane layer below).symm ▸ empty
  · intro layer below
    exact (plane layer below).symm ▸ empty

namespace Keeps

theorem length_key (keeps : Keeps geometry keys values count offset cache) {layer : ℕ} (below : layer < geometry.layers) :
    (cache.ctxK.getD layer []).length = cache.ctxLen * geometry.elementsPerToken := by
  rw [(keeps.key layer below).length, keeps.keyCount layer below, keeps.ctxLen]

theorem length_value (keeps : Keeps geometry keys values count offset cache) {layer : ℕ}
    (below : layer < geometry.layers) :
    (cache.ctxV.getD layer []).length = cache.ctxLen * geometry.elementsPerToken := by
  rw [(keeps.value layer below).length, keeps.valueCount layer below, keeps.ctxLen]

theorem lengths (keeps : Keeps geometry keys values count offset cache) :
    cache.ctxV.map List.length = cache.ctxK.map List.length := by
  apply List.ext_getElem
  · rw [List.length_map, List.length_map, keeps.keyLayers, keeps.valueLayers]
  · intro layer below _
    rw [List.length_map, keeps.valueLayers] at below
    have key := keeps.length_key below
    have value := keeps.length_value below
    rw [List.getD_eq_getElem _ _ (keeps.keyLayers ▸ below)] at key
    rw [List.getD_eq_getElem _ _ (keeps.valueLayers ▸ below)] at value
    rw [List.getElem_map, List.getElem_map, key, value]

end Keeps

/-- An entry of planes that were changed together. -/
theorem getD_zipWith {α β γ : Type} {change : α → β → γ} {left : List α} {right : List β} {index : ℕ} {a : α} {b : β} {c : γ}
    (inside : index < left.length) (inside' : index < right.length) :
    (List.zipWith change left right).getD index c = change (left.getD index a) (right.getD index b) := by
  rw [List.getD_eq_getElem _ _ (by rw [List.length_zipWith]; omega), List.getElem_zipWith, List.getD_eq_getElem _ _ inside,
    List.getD_eq_getElem _ _ inside']

/-- A round through all layers. -/
theorem Keeps.appended (keeps : Keeps geometry keys values count offset cache) (complete : round.Complete geometry) :
    ∃ revisions, DFlashContextKvCache.appendLayers round.tokens 0 cache round.layers =
      { cache with
        ctxK := List.zipWith (fun key plane =>
          appendPlane cache.sinkSize cache.windowSize cache.width round.tokens key plane.1) cache.ctxK round.layers
        ctxV := List.zipWith (fun value plane =>
          appendPlane cache.sinkSize cache.windowSize cache.width round.tokens value plane.2) cache.ctxV round.layers
        layerRevisions := revisions } :=
  DFlashContextKvCache.appendLayers_planes (List.nil_append _).symm (List.nil_append _).symm rfl rfl
    (keeps.keyLayers.trans complete.layers.symm) keeps.lengths
    (fun plane member => by rw [keeps.width]; exact complete.keyRoom plane member)
    (fun plane member => by rw [keeps.width]; exact complete.valueRoom plane member)

theorem DFlashRound.Complete.bringsKeys (complete : round.Complete geometry) {layer : ℕ} (below : layer < geometry.layers) :
    Brings geometry.elementsPerToken round.tokens (round.keys geometry.elementsPerToken layer)
      (round.layers.getD layer ([], [])).1 := by
  apply brings_rowsIn
  rw [List.getD_eq_getElem _ _ (complete.layers ▸ below)]
  exact complete.keyRoom _ (List.getElem_mem _)

theorem DFlashRound.Complete.bringsValues (complete : round.Complete geometry) {layer : ℕ}
    (below : layer < geometry.layers) :
    Brings geometry.elementsPerToken round.tokens (round.values geometry.elementsPerToken layer)
      (round.layers.getD layer ([], [])).2 := by
  apply brings_rowsIn
  rw [List.getD_eq_getElem _ _ (complete.layers ▸ below)]
  exact complete.valueRoom _ (List.getElem_mem _)

theorem DFlashContextKvCache.ctxLen_appendRound (first : 0 < (cache.appendRound round).ctxK.length) :
    (cache.appendRound round).ctxLen =
      ((cache.appendRound round).ctxK.getD 0 []).length / (cache.appendRound round).width := by
  rw [appendRound, advanceRound] at first ⊢
  dsimp only at first ⊢
  cases planes : (appendLayers round.tokens 0 cache round.layers).ctxK with
  | nil => rw [planes] at first; exact absurd first (lt_irrefl 0)
  | cons key rest => rfl

/-- A round of any size adds its rows to every layer. -/
theorem Keeps.appendRound (keeps : Keeps geometry keys values count offset cache) (complete : round.Complete geometry) :
    Keeps geometry (fun layer => keys layer ++ round.keys geometry.elementsPerToken layer)
      (fun layer => values layer ++ round.values geometry.elementsPerToken layer) (count + round.tokens)
      (offset + round.tokens) (cache.appendRound round) := by
  obtain ⟨revisions, appended⟩ := keeps.appended complete
  have key : ∀ layer < geometry.layers, Retains geometry.sinkSize geometry.windowSize geometry.elementsPerToken
      (keys layer ++ round.keys geometry.elementsPerToken layer) ((cache.appendRound round).ctxK.getD layer []) := by
    intro layer below
    have plane := (keeps.key layer below).append geometry.row (complete.bringsKeys below)
    rw [DFlashContextKvCache.appendRound, appended, DFlashContextKvCache.advanceRound]
    dsimp only
    rw [getD_zipWith (a := []) (b := ([], [])) (keeps.keyLayers ▸ below) (complete.layers ▸ below), keeps.sinkSize,
      keeps.windowSize, keeps.width]
    exact plane
  have value : ∀ layer < geometry.layers, Retains geometry.sinkSize geometry.windowSize geometry.elementsPerToken
      (values layer ++ round.values geometry.elementsPerToken layer) ((cache.appendRound round).ctxV.getD layer []) := by
    intro layer below
    have plane := (keeps.value layer below).append geometry.row (complete.bringsValues below)
    rw [DFlashContextKvCache.appendRound, appended, DFlashContextKvCache.advanceRound]
    dsimp only
    rw [getD_zipWith (a := []) (b := ([], [])) (keeps.valueLayers ▸ below) (complete.layers ▸ below), keeps.sinkSize,
      keeps.windowSize, keeps.width]
    exact plane
  have keyCount : ∀ layer < geometry.layers,
      (keys layer ++ round.keys geometry.elementsPerToken layer).length = count + round.tokens := by
    intro layer below
    rw [List.length_append, keeps.keyCount layer below, (complete.bringsKeys below).count]
  have valueCount : ∀ layer < geometry.layers,
      (values layer ++ round.values geometry.elementsPerToken layer).length = count + round.tokens := by
    intro layer below
    rw [List.length_append, keeps.valueCount layer below, (complete.bringsValues below).count]
  have keyLayers : (cache.appendRound round).ctxK.length = geometry.layers := by
    rw [DFlashContextKvCache.appendRound, appended, DFlashContextKvCache.advanceRound, List.length_zipWith, keeps.keyLayers,
      complete.layers, Nat.min_self]
  have valueLayers : (cache.appendRound round).ctxV.length = geometry.layers := by
    rw [DFlashContextKvCache.appendRound, appended, DFlashContextKvCache.advanceRound, List.length_zipWith,
      keeps.valueLayers, complete.layers, Nat.min_self]
  have geometryEq : (cache.appendRound round).sinkSize = cache.sinkSize ∧
      (cache.appendRound round).windowSize = cache.windowSize ∧ (cache.appendRound round).width = cache.width ∧
      (cache.appendRound round).ctxOffset = cache.ctxOffset + round.tokens := by
    rw [DFlashContextKvCache.appendRound, appended]
    exact ⟨rfl, rfl, rfl, rfl⟩
  obtain ⟨sinkSize, windowSize, width, ctxOffset⟩ := geometryEq
  have ctxLen := DFlashContextKvCache.ctxLen_appendRound (keyLayers ▸ geometry.layer)
  refine ⟨sinkSize.trans keeps.sinkSize, windowSize.trans keeps.windowSize, width.trans keeps.width, ?_,
    ctxOffset.trans (congrArg (· + round.tokens) keeps.ctxOffset), keyLayers, valueLayers, keyCount, valueCount, key, value⟩
  rw [ctxLen, (key 0 geometry.layer).length, keyCount 0 geometry.layer, width, keeps.width,
    Nat.mul_div_cancel _ geometry.row]

/-- The planes of an accelerator that hold what a cache of this geometry retains. -/
structure Matches (room : ℕ) (geometry : DFlashContextGeometry) (keys values : ℕ → List (List Single))
    (mirror : MetalDFlashMirror) :
    Prop where
  keyLayers : mirror.cachedK.length = geometry.layers
  valueLayers : mirror.cachedV.length = geometry.layers
  key : ∀ layer < geometry.layers, Mirrors room geometry.sinkSize geometry.windowSize geometry.elementsPerToken (keys layer)
    (mirror.cachedK.getD layer [])
  value : ∀ layer < geometry.layers, Mirrors room geometry.sinkSize geometry.windowSize geometry.elementsPerToken
    (values layer) (mirror.cachedV.getD layer [])

/-- Planes with room for a cache of this geometry. -/
structure MetalDFlashMirror.Allocated (room : ℕ) (geometry : DFlashContextGeometry) (mirror : MetalDFlashMirror) : Prop where
  fits : (geometry.sinkSize + geometry.windowSize) * geometry.elementsPerToken ≤ room
  keyLayers : mirror.cachedK.length = geometry.layers
  valueLayers : mirror.cachedV.length = geometry.layers
  keyRoom : ∀ plane ∈ mirror.cachedK, plane.length = room
  valueRoom : ∀ plane ∈ mirror.cachedV, plane.length = room

variable {mirror : MetalDFlashMirror} {room : ℕ}

/-- Copying a plane over makes the two agree. -/
theorem Retains.mirrors {sink window width : ℕ} {history : List (List Single)} {plane buffer : List Single}
    (retains : Retains sink window width history plane) (enough : (sink + window) * width ≤ room)
    (length : buffer.length = room) : Mirrors room sink window width history (splice buffer 0 plane) := by
  have fits : plane.length ≤ (sink + window) * width := by
    rw [retains.length]
    exact Nat.mul_le_mul_right width (Nat.min_le_right _ _)
  refine ⟨retains.sized, enough, ?_, ?_⟩
  · rwa [length_splice (by omega)]
  · rw [← retains.length, splice, List.take_zero, List.nil_append, List.take_left, retains.plane_eq]

theorem Keeps.synchronized (keeps : Keeps geometry keys values count offset cache)
    (allocated : mirror.Allocated room geometry) : Matches room geometry keys values (mirror.synchronizeCache cache) := by
  refine ⟨?_, ?_, ?_, ?_⟩
  · rw [MetalDFlashMirror.synchronizeCache, List.length_mapIdx, allocated.keyLayers]
  · rw [MetalDFlashMirror.synchronizeCache, List.length_mapIdx, allocated.valueLayers]
  · intro layer below
    rw [← allocated.keyLayers] at below
    rw [MetalDFlashMirror.synchronizeCache, List.getD_eq_getElem _ _ (by rwa [List.length_mapIdx]), List.getElem_mapIdx]
    exact (keeps.key layer (allocated.keyLayers ▸ below)).mirrors allocated.fits
      (allocated.keyRoom _ (List.getElem_mem below))
  · intro layer below
    rw [← allocated.valueLayers] at below
    rw [MetalDFlashMirror.synchronizeCache, List.getD_eq_getElem _ _ (by rwa [List.length_mapIdx]), List.getElem_mapIdx]
    exact (keeps.value layer (allocated.valueLayers ▸ below)).mirrors allocated.fits
      (allocated.valueRoom _ (List.getElem_mem below))

namespace MetalDFlashMirror

theorem modify_behind (front : List (List Single)) (buffer : List Single) (rest : List (List Single))
    (change : List Single → List Single) :
    (front ++ buffer :: rest).modify front.length change = (front ++ [change buffer]) ++ rest := by
  induction front with
  | nil => rfl
  | cons plane front ih =>
    rw [List.cons_append, List.length_cons, List.modify_succ_cons, ih, List.cons_append, List.cons_append]

/-- The cache does not notice the accelerator. -/
theorem commitLayers_cache {current tokens : ℕ} {planes : List (List Single × List Single)} :
    ∀ {mirror : MetalDFlashMirror} {cache : DFlashContextKvCache} {layer : ℕ},
      (commitLayers current tokens layer (mirror, cache) planes).2 =
        DFlashContextKvCache.appendLayers tokens layer cache planes := by
  induction planes with
  | nil => exact rfl
  | cons plane planes ih =>
    intro mirror cache layer
    rw [commitLayers, DFlashContextKvCache.appendLayers, ih]

variable (mirror) in
theorem commitRound_cache : (mirror.commitRound cache round).2 = cache.appendRound round := by
  rw [commitRound, commitLayers_cache]
  rfl

variable (cache) in
theorem appendLayer_geometry (layer tokens : ℕ) (k v : List Single) :
    (cache.appendLayer layer k v tokens).sinkSize = cache.sinkSize ∧
      (cache.appendLayer layer k v tokens).windowSize = cache.windowSize ∧
      (cache.appendLayer layer k v tokens).width = cache.width := by
  rw [DFlashContextKvCache.appendLayer]
  dsimp only
  split
  · exact ⟨rfl, rfl, rfl⟩
  · split
    · exact ⟨rfl, rfl, rfl⟩
    · exact ⟨rfl, rfl, rfl⟩

theorem commitLayers_planes (current tokens : ℕ) (planes : List (List Single × List Single)) :
    ∀ {mirror : MetalDFlashMirror} (cache : DFlashContextKvCache) {layer : ℕ}
      {frontK restK frontV restV : List (List Single)},
      mirror.cachedK = frontK ++ restK → mirror.cachedV = frontV ++ restV → frontK.length = layer →
      frontV.length = layer → restK.length = planes.length → restV.length = planes.length →
      (commitLayers current tokens layer (mirror, cache) planes).1 =
        { mirror with
          cachedK := frontK ++ List.zipWith (fun buffer plane =>
            appendCachedRows buffer plane.1 cache.width current cache.sinkSize cache.windowSize tokens) restK planes
          cachedV := frontV ++ List.zipWith (fun buffer plane =>
            appendCachedRows buffer plane.2 cache.width current cache.sinkSize cache.windowSize tokens) restV planes } := by
  induction planes with
  | nil =>
    intro mirror cache layer frontK restK frontV restV keyEq valueEq _ _ keyLength valueLength
    obtain rfl := List.length_eq_zero_iff.mp keyLength
    obtain rfl := List.length_eq_zero_iff.mp valueLength
    rw [commitLayers, List.zipWith_nil_left, List.zipWith_nil_left, ← keyEq, ← valueEq]
  | cons plane planes ih =>
    intro mirror cache layer frontK restK frontV restV keyEq valueEq keyFront valueFront keyLength valueLength
    obtain ⟨key, restK, rfl⟩ := List.exists_cons_of_length_eq_add_one keyLength
    obtain ⟨value, restV, rfl⟩ := List.exists_cons_of_length_eq_add_one valueLength
    obtain ⟨sinkSize, windowSize, width⟩ := appendLayer_geometry cache layer tokens plane.1 plane.2
    rw [commitLayers]
    rw [@ih _ _ _ (frontK ++ [appendCachedRows key plane.1 cache.width current cache.sinkSize cache.windowSize tokens]) restK
        (frontV ++ [appendCachedRows value plane.2 cache.width current cache.sinkSize cache.windowSize tokens]) restV
          (by rw [keyEq, ← keyFront, modify_behind]) (by rw [valueEq, ← valueFront, modify_behind])
        (by rw [List.length_append, keyFront, List.length_singleton])
        (by rw [List.length_append, valueFront, List.length_singleton]) (Nat.succ.inj keyLength) (Nat.succ.inj valueLength),
      sinkSize, windowSize, width, List.zipWith_cons_cons, List.zipWith_cons_cons, List.append_assoc, List.append_assoc,
      List.singleton_append, List.singleton_append]

end MetalDFlashMirror

/-- Committing a round keeps the accelerator's planes at what the cache retains. -/
theorem Matches.commitRound (keeps : Keeps geometry keys values count offset cache)
    (matches' : Matches room geometry keys values mirror) (complete : round.Complete geometry) :
    Matches room geometry (fun layer => keys layer ++ round.keys geometry.elementsPerToken layer)
      (fun layer => values layer ++ round.values geometry.elementsPerToken layer) (mirror.commitRound cache round).1 := by
  have committed := MetalDFlashMirror.commitLayers_planes cache.ctxLen round.tokens round.layers cache
    (List.nil_append mirror.cachedK).symm (List.nil_append mirror.cachedV).symm List.length_nil List.length_nil
    (matches'.keyLayers.trans complete.layers.symm) (matches'.valueLayers.trans complete.layers.symm)
  rw [MetalDFlashMirror.commitRound, committed]
  refine ⟨?_, ?_, ?_, ?_⟩
  · dsimp only
    rw [List.nil_append, List.length_zipWith, matches'.keyLayers, complete.layers, Nat.min_self]
  · dsimp only
    rw [List.nil_append, List.length_zipWith, matches'.valueLayers, complete.layers, Nat.min_self]
  · intro layer below
    dsimp only
    rw [List.nil_append, getD_zipWith (a := []) (b := ([], [])) (matches'.keyLayers ▸ below) (complete.layers ▸ below),
      keeps.sinkSize, keeps.windowSize, keeps.width, keeps.ctxLen, ← keeps.keyCount layer below]
    exact (matches'.key layer below).append (complete.bringsKeys below)
  · intro layer below
    dsimp only
    rw [List.nil_append, getD_zipWith (a := []) (b := ([], [])) (matches'.valueLayers ▸ below) (complete.layers ▸ below),
      keeps.sinkSize, keeps.windowSize, keeps.width, keeps.ctxLen, ← keeps.valueCount layer below]
    exact (matches'.value layer below).append (complete.bringsValues below)

end Muser.Dflash
