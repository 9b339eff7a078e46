import Muser.Engine.Ring

/-! # Speculative blocks

Before a block of candidates is evaluated, every sliding plane retains the rows the block can
overwrite; a growing plane needs no more than its metadata. Committing an accepted prefix puts the
rejected rows back and appends the prefix again over the rows that the block has already written.
-/

namespace Muser.Engine

def maxDflashBlock : ℕ := 16

structure MetalSpeculativePlaneCheckpoint where
  originLogical : ℕ
  originPhysical : ℕ
  len : ℕ
  overwrittenPhysical : List ℕ
  overwrittenKey : List Half
  overwrittenValue : List Half
deriving DecidableEq

structure MetalSpeculativeCheckpoint where
  startPosition : ℕ
  tokenCount : ℕ
  planes : List MetalSpeculativePlaneCheckpoint
deriving DecidableEq

namespace MetalKvPlane

/-- Retain the rows one speculative block can overwrite in this plane. -/
def speculativeCheckpoint (plane : MetalKvPlane) (kvDim headDim : ℕ) (isSwa : Bool) (tokenCount : ℕ) :
    Except MetalModelError MetalSpeculativePlaneCheckpoint :=
  let metadata : MetalSpeculativePlaneCheckpoint :=
    { originLogical := plane.originLogical
      originPhysical := plane.originPhysical
      len := plane.len
      overwrittenPhysical := []
      overwrittenKey := []
      overwrittenValue := [] }
  if !isSwa then .ok metadata
  else if plane.capacity < tokenCount then
    .error (.invalidSnapshot ("speculative block " ++ toString tokenCount ++ " exceeds SWA capacity " ++
      toString plane.capacity))
  else
    let physical := (List.range tokenCount).map fun offset =>
      (plane.originPhysical + plane.len + offset) % plane.capacity
    .ok
      { metadata with
        overwrittenPhysical := physical
        overwrittenKey :=
          (physical.map fun slot => readSlot plane.key plane.capacity kvDim headDim plane.headMajor slot).flatten
        overwrittenValue :=
          (physical.map fun slot => readSlot plane.value plane.capacity kvDim headDim plane.headMajor slot).flatten }

/-- Put back the retained rows from `accepted` on. -/
def restoreOverwritten (plane : MetalKvPlane) (kvDim headDim : ℕ) (physical : List ℕ) (bits overwritten : List Half)
    (accepted tokenCount : ℕ) : List Half :=
  (List.range' accepted (tokenCount - accepted)).foldl
    (fun bits offset =>
      writeSlot bits plane.capacity kvDim headDim plane.headMajor (physical.getD offset 0)
        (slice overwritten (offset * kvDim) kvDim))
    bits

/-- Restore the rejected tail of a speculative block and append the accepted prefix again. -/
def restoreSpeculative (plane : MetalKvPlane) (layer : ℕ) (saved : MetalSpeculativePlaneCheckpoint)
    (kvDim headDim : ℕ) (isSwa : Bool) (startPosition tokenCount accepted : ℕ) : Except MetalModelError MetalKvPlane :=
  let restored :=
    if isSwa then
      { plane with
        key := plane.restoreOverwritten kvDim headDim saved.overwrittenPhysical plane.key saved.overwrittenKey accepted
          tokenCount
        value := plane.restoreOverwritten kvDim headDim saved.overwrittenPhysical plane.value saved.overwrittenValue
          accepted tokenCount }
    else plane
  let rewound :=
    { restored with
      originLogical := saved.originLogical
      originPhysical := saved.originPhysical
      len := saved.len }
  if accepted ≠ 0 then (rewound.appendBatch layer startPosition accepted).map Prod.snd else .ok rewound

end MetalKvPlane

/-- The part of a Metal model that a forward pass advances. -/
structure MetalMuseModel where
  layerKinds : List MuseLayerKind
  kvDim : ℕ
  headDim : ℕ
  cache : List MetalKvPlane
  nPast : ℕ

namespace MetalMuseModel

/-- Retain what a block of `tokenCount` candidates can overwrite. -/
def speculativeCheckpoint (model : MetalMuseModel) (tokenCount : ℕ) :
    Except MetalModelError MetalSpeculativeCheckpoint :=
  if tokenCount = 0 ∨ maxDflashBlock < tokenCount then
    .error (.invalidSnapshot ("speculative checkpoint length " ++ toString tokenCount ++ " is outside 1..=" ++
      toString maxDflashBlock))
  else do
    let planes ← (model.cache.zip model.layerKinds).mapM fun layer =>
      layer.1.speculativeCheckpoint model.kvDim model.headDim layer.2.isSwa tokenCount
    .ok { startPosition := model.nPast, tokenCount := tokenCount, planes := planes }

/-- Restore one plane after the other. -/
def restorePlanes (kvDim headDim startPosition tokenCount accepted : ℕ) :
    ℕ → List MetalKvPlane → List MetalSpeculativePlaneCheckpoint → List MuseLayerKind →
      Except MetalModelError (List MetalKvPlane)
  | layer, plane :: planes, saved :: rest, kind :: kinds => do
    let first ← plane.restoreSpeculative layer saved kvDim headDim kind.isSwa startPosition tokenCount accepted
    let others ← restorePlanes kvDim headDim startPosition tokenCount accepted (layer + 1) planes rest kinds
    .ok (first :: others)
  | _, planes, _, _ => .ok planes

/-- Commit an accepted prefix of a speculative block. -/
def commitSpeculativePrefix (model : MetalMuseModel) (checkpoint : MetalSpeculativeCheckpoint) (accepted : ℕ) :
    Except MetalModelError MetalMuseModel :=
  if checkpoint.tokenCount < accepted ∨ model.nPast < checkpoint.startPosition ∨
      model.nPast - checkpoint.startPosition < accepted ∨
      checkpoint.tokenCount < model.nPast - checkpoint.startPosition ∨
      checkpoint.planes.length ≠ model.cache.length then
    .error (.invalidSnapshot "speculative checkpoint does not match the completed batch")
  else do
    let cache ← restorePlanes model.kvDim model.headDim checkpoint.startPosition checkpoint.tokenCount accepted 0
      model.cache checkpoint.planes model.layerKinds
    .ok { model with cache := cache, nPast := checkpoint.startPosition + accepted }

end MetalMuseModel

namespace MetalKvPlane

variable {plane : MetalKvPlane} {kvDim headDim : ℕ} {history rows : List KvRow}

/-- What the checkpoint of a sliding plane retains. -/
theorem Built.speculativeCheckpoint_swa (built : plane.Built kvDim headDim history) {tokenCount : ℕ}
    (few : tokenCount ≤ plane.capacity) :
    plane.speculativeCheckpoint kvDim headDim true tokenCount =
      .ok
        { originLogical := plane.originLogical
          originPhysical := plane.originPhysical
          len := plane.len
          overwrittenPhysical := (List.range tokenCount).map fun offset => (history.length + offset) % plane.capacity
          overwrittenKey := ((List.range tokenCount).map fun offset =>
            (plane.layout kvDim headDim).readRow plane.key ((history.length + offset) % plane.capacity)).flatten
          overwrittenValue := ((List.range tokenCount).map fun offset =>
            (plane.layout kvDim headDim).readRow plane.value ((history.length + offset) % plane.capacity)).flatten } := by
  have slots : ∀ offset, (plane.originPhysical + plane.len + offset) % plane.capacity =
      (history.length + offset) % plane.capacity := by
    intro offset
    rw [built.originPhysical_eq, Nat.add_assoc, Nat.mod_add_mod, ← Nat.add_assoc, built.expected_eq]
  rw [speculativeCheckpoint]
  simp only [Bool.not_true, Bool.false_eq_true, if_false, if_neg (Nat.not_lt.mpr few), slots, List.map_map, readSlot_eq]
  rfl

/-- Putting retained rows back is writing them at the positions after the accepted prefix. -/
theorem restoreOverwritten_eq (plane : MetalKvPlane) (headDim : ℕ) {saved : List (List Half)}
    (wide : ∀ values ∈ saved, values.length = kvDim) (start : ℕ)
    (bits : List Half) {accepted : ℕ} (most : accepted ≤ saved.length) :
    plane.restoreOverwritten kvDim headDim
        ((List.range saved.length).map fun offset => (start + offset) % plane.capacity) bits saved.flatten accepted
        saved.length =
      (plane.layout kvDim headDim).writeFrom bits (start + accepted) (saved.drop accepted) := by
  rw [restoreOverwritten]
  obtain ⟨rest, restEq⟩ : ∃ rest, rest = saved.length - accepted := ⟨_, rfl⟩
  rw [← restEq]
  induction rest generalizing bits accepted with
  | zero =>
    rw [List.drop_eq_nil_of_le (by lia)]
    rfl
  | succ rest ih =>
    have inside : accepted < saved.length := by lia
    have slot : ((List.range saved.length).map fun offset => (start + offset) % plane.capacity).getD accepted 0 =
        (start + accepted) % plane.capacity := by
      simp [List.getD, inside]
    rw [List.range'_succ, List.foldl_cons, slot, slice_flatten wide (List.getElem?_eq_getElem inside),
      writeSlot_eq _ _ (wide _ (List.getElem_mem inside)), ih _ (by lia) (by lia), List.drop_eq_getElem_cons inside]
    simp only [RowLayout.writeFrom, layout, rowLayout_capacity, Nat.add_assoc]

/-- Advancing the metadata does not look at the rows. -/
theorem appendBatch_bits (plane : MetalKvPlane) (key value : List Half) (layer startPosition tokenCount : ℕ) :
    ({ plane with key := key, value := value } : MetalKvPlane).appendBatch layer startPosition tokenCount =
      (plane.appendBatch layer startPosition tokenCount).map fun reserved =>
        (reserved.1, { reserved.2 with key := key, value := value }) := by
  simp only [appendBatch]
  split
  · rfl
  · split
    · rfl
    · split <;> rfl

/-- Rewinding to a history and appending `accepted` rows again advances the metadata by them. -/
theorem Built.rewind (built : plane.Built kvDim headDim history) (layer accepted : ℕ)
    (small : plane.len + accepted < usizeBound) (key value : List Half) :
    (if accepted ≠ 0 then
      (({ plane with key := key, value := value } : MetalKvPlane).appendBatch layer history.length accepted).map Prod.snd
    else .ok { plane with key := key, value := value }) =
      .ok { plane.advance (history.length + accepted) with key := key, value := value } := by
  split
  · rw [appendBatch_bits, built.appendBatch_eq layer small]
    rfl
  · next none =>
    rw [not_not.mp none, Nat.add_zero, built.advance_length]

variable {saved : MetalSpeculativePlaneCheckpoint} {tokenCount accepted layer : ℕ}

/-- A sliding plane after the commit is the plane that only received the accepted rows. -/
theorem Built.restoreSpeculative_swa (built : plane.Built kvDim headDim history)
    (wide : ∀ row ∈ rows, KvRow.Wide row kvDim) (few : tokenCount ≤ plane.capacity)
    (most : rows.length ≤ tokenCount) (short : accepted ≤ rows.length) (small : plane.len + accepted < usizeBound)
    (checkpoint : plane.speculativeCheckpoint kvDim headDim true tokenCount = .ok saved) :
    ((plane.advance (history.length + rows.length)).store kvDim headDim history.length rows).restoreSpeculative layer saved
        kvDim headDim true history.length tokenCount accepted =
      .ok ((plane.advance (history.length + accepted)).store kvDim headDim history.length (rows.take accepted)) := by
  have room : 0 < (plane.layout kvDim headDim).capacity := by
    rw [layout, rowLayout_capacity]
    exact built.capacity_pos
  have capacity : (plane.layout kvDim headDim).capacity = plane.capacity := rowLayout_capacity
  cases checkpoint.symm.trans (built.speculativeCheckpoint_swa few)
  -- one buffer at a time
  have one : ∀ {bits : List Half} {values : List (List Half)}, (plane.layout kvDim headDim).Fits bits →
      (plane.layout kvDim headDim).Sized values → values.length = rows.length →
      ((plane.advance (history.length + rows.length)).store kvDim headDim history.length rows).restoreOverwritten kvDim
          headDim ((List.range tokenCount).map fun offset => (history.length + offset) % plane.capacity)
          ((plane.layout kvDim headDim).writeFrom bits history.length values)
          ((List.range tokenCount).map fun offset =>
            (plane.layout kvDim headDim).readRow bits ((history.length + offset) % plane.capacity)).flatten accepted
          tokenCount =
        (plane.layout kvDim headDim).writeFrom bits history.length (values.take accepted) := by
    intro bits values fits sized length
    have savedWide : ∀ row ∈ (List.range tokenCount).map (fun offset =>
        (plane.layout kvDim headDim).readRow bits ((history.length + offset) % plane.capacity)), row.length = kvDim := by
      intro row member
      obtain ⟨offset, -, rfl⟩ := List.mem_map.mp member
      rw [RowLayout.length_readRow fits (by rw [capacity]; exact Nat.mod_lt _ built.capacity_pos), layout,
        rowLayout_row built.whole]
    have back := ((plane.advance (history.length + rows.length)).store kvDim headDim history.length
      rows).restoreOverwritten_eq headDim savedWide history.length
      ((plane.layout kvDim headDim).writeFrom bits history.length values)
      (show accepted ≤ _ by rw [List.length_map, List.length_range]; lia)
    rw [List.length_map, List.length_range] at back
    have undo := RowLayout.writeFrom_undo room fits sized (show tokenCount ≤ _ by rwa [capacity]) (by lia)
      history.length (show accepted ≤ values.length by lia)
    rw [capacity] at undo
    exact back.trans undo
  have keys := one ((rowLayout_fits_iff built.whole).mpr built.fits_key) (Built.sized_keys built.whole wide)
    (List.length_map _)
  have values := one ((rowLayout_fits_iff built.whole).mpr built.fits_value) (Built.sized_values built.whole wide)
    (List.length_map _)
  have rewound := built.rewind layer accepted small
    ((plane.layout kvDim headDim).writeFrom plane.key history.length ((rows.take accepted).map KvRow.key))
    ((plane.layout kvDim headDim).writeFrom plane.value history.length ((rows.take accepted).map KvRow.value))
  rw [← List.map_take] at keys values
  refine (congrArg₂ (fun key value =>
    if accepted ≠ 0 then
      (({ plane with key := key, value := value } : MetalKvPlane).appendBatch layer history.length accepted).map Prod.snd
    else .ok { plane with key := key, value := value }) keys values).trans rewound

/-- A growing plane after the commit: the rejected rows are left in storage that holds nothing. -/
theorem Built.restoreSpeculative_nope (built : plane.Built kvDim headDim history)
    (wide : ∀ row ∈ rows, KvRow.Wide row kvDim)
    (room : history.length + rows.length ≤ plane.capacity) (short : accepted ≤ rows.length)
    (small : plane.len + accepted < usizeBound)
    (checkpoint : plane.speculativeCheckpoint kvDim headDim false tokenCount = .ok saved) :
    ∃ restored, ((plane.advance (history.length + rows.length)).store kvDim headDim history.length rows).restoreSpeculative
        layer saved kvDim headDim false history.length tokenCount accepted = .ok restored ∧
      restored.Built kvDim headDim (history ++ rows.take accepted) ∧ restored.capacity = plane.capacity ∧
      restored.headMajor = plane.headMajor := by
  cases checkpoint
  refine ⟨_, built.rewind layer accepted small _ _, ?_, rfl, rfl⟩
  obtain ⟨-, produced⟩ := built.appendEach layer wide
  have isPrefix : history ++ rows.take accepted <+: history ++ rows :=
    (List.prefix_append_right_inj history).mpr (List.take_prefix accepted rows)
  have length : (history ++ rows.take accepted).length = history.length + accepted := by
    rw [List.length_append, List.length_take_of_le short]
  have origins : history.length + accepted - plane.capacity = 0 ∧
      history.length + rows.length - plane.capacity = 0 := by lia
  -- the first rows of what was stored
  have holds : ∀ (part : KvRow → List Half) (bits : List Half),
      (plane.layout kvDim headDim).Holds bits (history.length + rows.length - plane.capacity) ((history ++ rows).map part) →
      (plane.layout kvDim headDim).Holds bits (history.length + accepted - plane.capacity)
        ((history ++ rows.take accepted).map part) := by
    intro part bits held position values after get
    have inside : position < ((history ++ rows.take accepted).map part).length := (List.getElem?_eq_some_iff.mp get).1
    refine held position values (by lia) ?_
    obtain ⟨rest, whole⟩ := isPrefix.map part
    rw [← whole, List.getElem?_append_left inside, get]
  refine
    { capacity_pos := built.capacity_pos
      whole := built.whole
      wide := fun row member => produced.wide row (isPrefix.subset member)
      fits_key := produced.fits_key
      fits_value := produced.fits_value
      len_eq := by rw [length]; rfl
      originLogical_eq := ?_
      originPhysical_eq := rfl
      keys := holds KvRow.key _ produced.keys
      values := holds KvRow.value _ produced.values }
  rw [length]
  change history.length + accepted - plane.capacity = history.length +
    accepted - min (history.length + accepted) plane.capacity
  lia

/-- Batches one after another. -/
def appendBatches (kvDim headDim layer : ℕ) : MetalKvPlane → ℕ → List (List KvRow) → Except MetalModelError MetalKvPlane
  | plane, _, [] => .ok plane
  | plane, position, batch :: batches => do
    let next ← plane.appendRows kvDim headDim layer position batch
    appendBatches kvDim headDim layer next (position + batch.length) batches

/-- However a short block is cut into batches, its rows are stored one after the other. -/
theorem Built.appendBatches (built : plane.Built kvDim headDim history) (layer : ℕ) {batches : List (List KvRow)}
    (wide : ∀ row ∈ batches.flatten, KvRow.Wide row kvDim) (few : batches.flatten.length ≤ plane.capacity)
    (small : 2 * plane.capacity < usizeBound) :
    plane.appendBatches kvDim headDim layer history.length batches =
      .ok ((plane.advance (history.length + batches.flatten.length)).store kvDim headDim history.length
        batches.flatten) := by
  induction batches generalizing plane history with
  | nil =>
    rw [List.flatten_nil, List.length_nil, Nat.add_zero, built.advance_length]
    rfl
  | cons batch batches ih =>
    rw [List.flatten_cons, List.length_append] at few
    have len := built.len_eq
    have batchWide : ∀ row ∈ batch, KvRow.Wide row kvDim := fun row member =>
      wide row (by rw [List.flatten_cons]; exact List.mem_append_left _ member)
    have appended := built.appendRows layer batchWide (by lia)
    have extended := built.extend batchWide
    rw [show history.length + batch.length - plane.capacity - history.length = 0 by lia, Nat.add_zero, List.drop_zero]
      at appended extended
    have rest := ih extended
      (fun row member => wide row (by rw [List.flatten_cons]; exact List.mem_append_right _ member))
      (by change _ ≤ plane.capacity; lia) small
    rw [List.length_append] at rest
    rw [MetalKvPlane.appendBatches, appended]
    refine rest.trans ?_
    rw [advance_store_advance, List.flatten_cons, List.length_append, Nat.add_assoc]
    simp only [store, List.map_append, layout, RowLayout.writeFrom_append, List.length_map]

end MetalKvPlane

/-- One layer of a block: a plane with its history, and the batches the block brings it. -/
structure SpeculativeLayer where
  kind : MuseLayerKind
  plane : MetalKvPlane
  history : List KvRow
  batches : List (List KvRow)

namespace SpeculativeLayer

def rows (layer : SpeculativeLayer) : List KvRow := layer.batches.flatten

/-- A sequentially built plane with room for a block of `tokenCount`, of which `produced` rows come. No
allocation is longer than half the address space. -/
structure Ready (layer : SpeculativeLayer) (kvDim headDim nPast tokenCount produced : ℕ) : Prop where
  built : layer.plane.Built kvDim headDim layer.history
  past : layer.history.length = nPast
  wide : ∀ row ∈ layer.rows, KvRow.Wide row kvDim
  count : layer.rows.length = produced
  swa : layer.kind.isSwa = true → tokenCount ≤ layer.plane.capacity
  nope : layer.kind.isSwa = false → nPast + tokenCount ≤ layer.plane.capacity
  small : 2 * layer.plane.capacity < usizeBound

/-- The plane once the block has run. -/
def producedPlane (layer : SpeculativeLayer) (kvDim headDim : ℕ) : MetalKvPlane :=
  (layer.plane.advance (layer.history.length + layer.rows.length)).store kvDim headDim layer.history.length layer.rows

variable {layer : SpeculativeLayer} {kvDim headDim nPast tokenCount produced accepted : ℕ}

theorem Ready.few (ready : layer.Ready kvDim headDim nPast tokenCount produced) : tokenCount ≤ layer.plane.capacity := by
  cases kind : layer.kind.isSwa with
  | true => exact ready.swa kind
  | false => exact le_trans (Nat.le_add_left _ _) (ready.nope kind)

theorem Ready.checkpoint (ready : layer.Ready kvDim headDim nPast tokenCount produced) :
    ∃ saved, layer.plane.speculativeCheckpoint kvDim headDim layer.kind.isSwa tokenCount = .ok saved := by
  cases kind : layer.kind.isSwa with
  | true => exact ⟨_, ready.built.speculativeCheckpoint_swa ready.few⟩
  | false => exact ⟨_, rfl⟩

theorem Ready.restore (ready : layer.Ready kvDim headDim nPast tokenCount produced) (most : produced ≤ tokenCount)
    (short : accepted ≤ produced) {saved : MetalSpeculativePlaneCheckpoint}
    (checkpoint : layer.plane.speculativeCheckpoint kvDim headDim layer.kind.isSwa tokenCount = .ok saved) (index : ℕ) :
    ∃ restored, (layer.producedPlane kvDim headDim).restoreSpeculative index saved kvDim headDim layer.kind.isSwa nPast
        tokenCount accepted = .ok restored ∧
      restored.Built kvDim headDim (layer.history ++ layer.rows.take accepted) ∧
      restored.capacity = layer.plane.capacity ∧ restored.headMajor = layer.plane.headMajor := by
  have len := ready.built.len_eq
  have few := ready.few
  have count := ready.count
  have past := ready.past
  have bound := ready.small
  have small : layer.plane.len + accepted < usizeBound := by lia
  subst past
  cases kind : layer.kind.isSwa with
  | true =>
    rw [kind] at checkpoint
    refine ⟨_, ready.built.restoreSpeculative_swa ready.wide few (by lia) (by lia) small checkpoint, ?_, rfl, rfl⟩
    have taken : (layer.rows.take accepted).length = accepted := List.length_take_of_le (by lia)
    obtain ⟨-, appended⟩ := ready.built.appendEach index
      (fun row member => ready.wide row (List.mem_of_mem_take (i := accepted) member))
    rwa [taken] at appended
  | false =>
    rw [kind] at checkpoint
    have room := ready.nope kind
    exact ready.built.restoreSpeculative_nope ready.wide (by lia) (by lia) small checkpoint

/-- The planes of a model once the block has run in every layer. -/
def runBlock (kvDim headDim nPast : ℕ) : ℕ → List SpeculativeLayer → Except MetalModelError (List MetalKvPlane)
  | _, [] => .ok []
  | index, layer :: layers => do
    let plane ← layer.plane.appendBatches kvDim headDim index nPast layer.batches
    let planes ← runBlock kvDim headDim nPast (index + 1) layers
    .ok (plane :: planes)

theorem runBlock_eq {layers : List SpeculativeLayer}
    (ready : ∀ layer ∈ layers, layer.Ready kvDim headDim nPast tokenCount produced) (most : produced ≤ tokenCount)
    (index : ℕ) :
    runBlock kvDim headDim nPast index layers = .ok (layers.map fun layer => layer.producedPlane kvDim headDim) := by
  induction layers generalizing index with
  | nil => rfl
  | cons layer layers ih =>
    have first := ready layer List.mem_cons_self
    have few := first.few
    have count := first.count
    have appended := first.built.appendBatches index first.wide (by rw [← rows, count]; lia) first.small
    rw [first.past] at appended
    rw [runBlock, appended, ih (fun layer member => ready layer (List.mem_cons_of_mem _ member))]
    rw [List.map_cons, producedPlane, first.past]
    rfl

/-- Every plane of a commit is a plane over its history and the accepted rows. -/
theorem restorePlanes_spec {layers : List SpeculativeLayer}
    (ready : ∀ layer ∈ layers, layer.Ready kvDim headDim nPast tokenCount produced) (most : produced ≤ tokenCount)
    (short : accepted ≤ produced) {saved : List MetalSpeculativePlaneCheckpoint}
    (checkpoints : List.Forall₂ (fun (layer : SpeculativeLayer) checkpoint =>
      layer.plane.speculativeCheckpoint kvDim headDim layer.kind.isSwa tokenCount = .ok checkpoint) layers saved)
    (index : ℕ) :
    ∃ planes, MetalMuseModel.restorePlanes kvDim headDim nPast tokenCount accepted index
        (layers.map fun layer => layer.producedPlane kvDim headDim) saved (layers.map SpeculativeLayer.kind) = .ok planes ∧
      List.Forall₂ (fun (layer : SpeculativeLayer) (plane : MetalKvPlane) =>
        layer.Ready kvDim headDim nPast tokenCount produced ∧
          plane.Built kvDim headDim (layer.history ++ layer.rows.take accepted) ∧
          plane.capacity = layer.plane.capacity ∧ plane.headMajor = layer.plane.headMajor) layers planes := by
  induction checkpoints generalizing index with
  | nil => exact ⟨[], rfl, .nil⟩
  | @cons layer checkpoint layers saved first rest ih =>
    obtain ⟨plane, restored, built⟩ := (ready layer List.mem_cons_self).restore most short first index
    obtain ⟨planes, others, builds⟩ := ih (fun layer member => ready layer (List.mem_cons_of_mem _ member)) (index + 1)
    refine ⟨plane :: planes, ?_, .cons ⟨ready layer List.mem_cons_self, built⟩ builds⟩
    rw [List.map_cons, List.map_cons, MetalMuseModel.restorePlanes, restored, others]
    rfl

end SpeculativeLayer

/-- Two planes hold the same rows in the same logical order and slots. -/
def MetalKvPlane.SameHeld (kvDim headDim : ℕ) (plane other : MetalKvPlane) : Prop :=
  plane.snapshot kvDim headDim = other.snapshot kvDim headDim ∧ plane.originPhysical = other.originPhysical

theorem MetalKvPlane.Built.sameHeld {kvDim headDim : ℕ} {plane other : MetalKvPlane} {history : List KvRow}
    (built : plane.Built kvDim headDim history) (built' : other.Built kvDim headDim history)
    (capacity : plane.capacity = other.capacity) (headMajor : plane.headMajor = other.headMajor) :
    plane.SameHeld kvDim headDim other := by
  have len : plane.len = other.len := by rw [built.len_eq, built'.len_eq, capacity]
  have origin : plane.originLogical = other.originLogical := by rw [built.originLogical_eq, built'.originLogical_eq, len]
  constructor
  · rw [built.snapshot_eq, built'.snapshot_eq, len, origin, capacity, headMajor]
  · rw [built.originPhysical_eq, built'.originPhysical_eq, origin, capacity]

open SpeculativeLayer

/-- A block of candidates, evaluated in any batches and committed up to `accepted`, leaves every plane
and the position as if only the accepted rows had been appended; with none accepted, as they were. -/
theorem speculative_rollback_exact {kvDim headDim nPast tokenCount produced accepted : ℕ} {layers : List SpeculativeLayer}
    (positive : 1 ≤ tokenCount) (block : tokenCount ≤ maxDflashBlock)
    (ready : ∀ layer ∈ layers, layer.Ready kvDim headDim nPast tokenCount produced) (most : produced ≤ tokenCount)
    (short : accepted ≤ produced) :
    ∃ checkpoint planes committed,
      (MetalMuseModel.mk (layers.map kind) kvDim headDim (layers.map plane) nPast).speculativeCheckpoint tokenCount =
        .ok checkpoint ∧
      runBlock kvDim headDim nPast 0 layers = .ok planes ∧
      (MetalMuseModel.mk (layers.map kind) kvDim headDim planes (nPast + produced)).commitSpeculativePrefix checkpoint
        accepted = .ok committed ∧
      committed.nPast = nPast + accepted ∧
      List.Forall₂ (fun (layer : SpeculativeLayer) (plane : MetalKvPlane) => ∃ reference,
        layer.plane.appendEach kvDim headDim 0 nPast (layer.rows.take accepted) = .ok reference ∧
          plane.SameHeld kvDim headDim reference) layers committed.cache ∧
      (accepted = 0 → List.Forall₂ (fun (layer : SpeculativeLayer) (plane : MetalKvPlane) =>
        plane.SameHeld kvDim headDim layer.plane) layers committed.cache) := by
  obtain ⟨saved, checkpointed, checkpoints⟩ := mapM_eq_ok layers
    (fun layer => layer.plane.speculativeCheckpoint kvDim headDim layer.kind.isSwa tokenCount)
    (fun layer checkpoint =>
      layer.plane.speculativeCheckpoint kvDim headDim layer.kind.isSwa tokenCount = .ok checkpoint)
    fun layer member => by
      obtain ⟨checkpoint, done⟩ := (ready layer member).checkpoint
      exact ⟨checkpoint, done, done⟩
  obtain ⟨planes, restored, builds⟩ := restorePlanes_spec ready most short checkpoints 0
  refine ⟨⟨nPast, tokenCount, saved⟩, _, ⟨layers.map kind, kvDim, headDim, planes, nPast + accepted⟩, ?_,
    runBlock_eq ready most 0, ?_, rfl, ?_, ?_⟩
  · rw [MetalMuseModel.speculativeCheckpoint, if_neg (by lia)]
    dsimp only
    rw [List.zip_map', List.mapM_map]
    simp only [Function.comp_def, checkpointed]
    rfl
  · have length := checkpoints.length_eq
    rw [MetalMuseModel.commitSpeculativePrefix]
    dsimp only
    rw [if_neg, restored]
    · rfl
    · rw [List.length_map]
      lia
  · refine builds.imp fun layer plane ⟨ready, built, capacity, headMajor⟩ => ?_
    obtain ⟨appended, again⟩ := ready.built.appendEach 0
      (fun row member => ready.wide row (List.mem_of_mem_take (i := accepted) member))
    rw [ready.past] at appended
    rw [ready.past] at again
    exact ⟨_, appended, built.sameHeld again capacity headMajor⟩
  · intro none
    refine builds.imp fun layer plane ⟨ready, built, capacity, headMajor⟩ => ?_
    rw [none, List.take_zero, List.append_nil] at built
    exact built.sameHeld ready.built capacity headMajor

/-- A sliding plane of four slots that holds one row, and a block of two rows. -/
def oneRowLayer : SpeculativeLayer where
  kind := .slidingRope
  plane :=
    { key := [1, 0, 0, 0]
      value := [2, 0, 0, 0]
      capacity := 4
      len := 1
      originLogical := 0
      originPhysical := 0
      headMajor := false }
  history := [⟨[1], [2]⟩]
  batches := [[⟨[3], [4]⟩], [⟨[5], [6]⟩]]

theorem oneRowLayer_ready : oneRowLayer.Ready 1 1 1 3 2 where
  built :=
    { capacity_pos := by decide
      whole := by decide
      wide := by
        intro row member
        rw [List.mem_singleton.mp member]
        exact ⟨rfl, rfl⟩
      fits_key := rfl
      fits_value := rfl
      len_eq := rfl
      originLogical_eq := rfl
      originPhysical_eq := rfl
      keys := by
        intro position values _ get
        cases position with
        | zero =>
          cases get
          rfl
        | succ position => simp [oneRowLayer] at get
      values := by
        intro position values _ get
        cases position with
        | zero =>
          cases get
          rfl
        | succ position => simp [oneRowLayer] at get }
  past := rfl
  wide := by
    intro row member
    rcases List.mem_cons.mp member with rfl | rest
    · exact ⟨rfl, rfl⟩
    · rw [List.mem_singleton.mp rest]
      exact ⟨rfl, rfl⟩
  count := rfl
  swa := fun _ => by decide
  nope := fun sliding => by simp [oneRowLayer, MuseLayerKind.isSwa] at sliding
  small := by decide

theorem speculative_rollback_exact_one_accepted : ∃ checkpoint planes committed,
    (MetalMuseModel.mk [.slidingRope] 1 1 [oneRowLayer.plane] 1).speculativeCheckpoint 3 = .ok checkpoint ∧
      runBlock 1 1 1 0 [oneRowLayer] = .ok planes ∧
      (MetalMuseModel.mk [.slidingRope] 1 1 planes 3).commitSpeculativePrefix checkpoint 1 = .ok committed ∧
      committed.nPast = 2 := by
  obtain ⟨checkpoint, planes, committed, saved, ran, done, past, -⟩ :=
    speculative_rollback_exact (by decide) (by decide)
      (show ∀ layer ∈ [oneRowLayer], layer.Ready 1 1 1 3 2 by simpa using oneRowLayer_ready) (by decide)
      (show 1 ≤ 2 by decide)
  exact ⟨checkpoint, planes, committed, saved, ran, done, past⟩

end Muser.Engine
