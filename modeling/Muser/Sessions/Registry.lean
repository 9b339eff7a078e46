import Muser.Dflash.Context
import Muser.Gbnf.Matcher
import Muser.AuthoritativeVerifier.Primitives
import Muser.Lib.Table

/-! # Session bundles

The committed state of a logical session, and what is checked of it before it is taken in. The parser
of a replay plan is a parameter: it is the JSON library's, over the message type of the server.
-/

namespace Muser.Sessions

open Engine Dflash Gbnf

/-- A hash of thirty-two bytes. -/
abbrev Hash := Bytes

structure SamplerStateSnapshot where
  distributionRng : Verifier.Mt19937Snapshot
  xtcRng : Verifier.Mt19937Snapshot
  mirostatRng : Verifier.Mt19937Snapshot
  adaptiveRng : Verifier.Mt19937Snapshot
  mirostatMu : Single
  adaptiveWeightedSum : Single
  adaptiveTotalWeight : Single

structure SessionBundle where
  schema : String
  sessionId : String
  revision : ℕ
  contextEpoch : ℕ
  modelSha256 : String
  tokenizerSha256 : Hash
  templateSha256 : Hash
  layoutAbi : String
  dflashIdentitySha256 : Option String
  visionProjectorSha256 : Option String
  visionPreprocessingSha256 : Option String
  target : SessionCacheSnapshot
  targetLogits : List Single
  dflash : Option DFlashContextSnapshot
  positionWitnesses : List Token
  samplerState : SamplerStateSnapshot
  samplerHistory : List Token
  detokenizerPending : String
  stopMatcherPending : String
  grammarState : Option GrammarMatcher
  grammarSha256 : Option Hash
  canonicalReplayPlanJson : String
  visionRows : List (List Single)

structure CachedGeneration where
  text : String
  promptTokens : ℕ
  completionTokens : ℕ
  finishReason : String
  seed : ℕ
  revision : ℕ
  context : List Token
  sampledTokens : List Token
deriving DecidableEq

def isSha256 (value : String) : Bool :=
  value.utf8ByteSize == 64 && value.toList.all fun character => character.isDigit || ('a' ≤ character && character ≤ 'f')

def validateId (id : String) : Except String Unit :=
  reject (id.isEmpty || 128 < id.utf8ByteSize ||
      !id.toList.all fun character => character.isAlphanum || character == '-' || character == '_')
    "session ID must contain 1..=128 ASCII letters, digits, '-' or '_'"

def validateIdempotencyKey (key : String) : Except String Unit :=
  reject (key.isEmpty || 256 < key.utf8ByteSize || key.toList.any fun character =>
    character.toNat < 32 || character.toNat == 127)
    "Idempotency-Key must contain 1..=256 non-control bytes"

/-- The generator's state can be taken up again. -/
def fromSnapshot (snapshot : Verifier.Mt19937Snapshot) : Except String Unit :=
  reject (snapshot.state.length != 624 || 624 < snapshot.index) "invalid MT19937 snapshot"

/-- The token of a position that holds an embedding. -/
def embeddingPositionWitness : Token := 0x7fffffff

def positive (value : Single) : Bool := 0 < value.key

/-- A vision row as wide as the first, and finite. -/
def visionRowsInvalid (rows : List (List Single)) : Bool :=
  match rows with
  | [] => false
  | first :: _ => first.isEmpty || rows.any fun row => row.length != first.length || row.any fun value => !value.isFinite

variable (replayPlan : String → Except String Unit)

/-- What a bundle must be to be taken in for a session. -/
def validateBundle (bundle : SessionBundle) (id : String) : Except String Unit := do
  reject (bundle.schema != "muser.session-bundle.v3" || bundle.sessionId != id) "session bundle identity mismatch"
  reject (!isSha256 bundle.modelSha256 || bundle.layoutAbi != "muse-kv-layout-v1")
    "session bundle model or layout identity is invalid"
  let digests := [bundle.dflashIdentitySha256, bundle.visionProjectorSha256, bundle.visionPreprocessingSha256]
  reject ((digests.reduceOption.any fun digest => !isSha256 digest) ||
      bundle.dflash.isSome != bundle.dflashIdentitySha256.isSome ||
      bundle.visionProjectorSha256.isSome != bundle.visionPreprocessingSha256.isSome ||
      (!bundle.visionRows.isEmpty && bundle.visionProjectorSha256.isNone))
    "session bundle assistant or vision identity is invalid"
  bundle.target.validate
  let sampler := bundle.samplerState
  forM [sampler.distributionRng, sampler.xtcRng, sampler.mirostatRng, sampler.adaptiveRng] fromSnapshot
  reject (!sampler.mirostatMu.isFinite || !sampler.adaptiveWeightedSum.isFinite || !sampler.adaptiveTotalWeight.isFinite ||
      !positive sampler.adaptiveTotalWeight)
    "session bundle sampler scalar state is invalid"
  reject (bundle.targetLogits.isEmpty || (bundle.targetLogits.any fun value => !value.isFinite) ||
      bundle.positionWitnesses != bundle.target.tokens || bundle.samplerHistory != bundle.target.tokens ||
      !bundle.detokenizerPending.isEmpty || !bundle.stopMatcherPending.isEmpty ||
      bundle.grammarState.any GrammarMatcher.hasPendingUtf8 || bundle.grammarState.isSome != bundle.grammarSha256.isSome)
    "session bundle frontier state is incomplete or inconsistent"
  match replayPlan bundle.canonicalReplayPlanJson with
  | .error failure => .error s!"session bundle canonical replay plan is invalid: {failure}"
  | .ok () => .ok ()
  match bundle.dflash with
  | none => .ok ()
  | some dflash =>
    dflash.validate
    reject (bundle.target.position < dflash.position || 1 < bundle.target.position - dflash.position)
      "DFlash and target session frontiers differ by more than one boundary token"
  reject (bundle.visionRows.length != bundle.positionWitnesses.count embeddingPositionWitness || visionRowsInvalid
    bundle.visionRows)
    "session bundle vision rows do not match embedding witnesses"

/-- A session that has taken in one token. -/
def oneTokenBundle (id : String) : SessionBundle where
  schema := "muser.session-bundle.v3"
  sessionId := id
  revision := 0
  contextEpoch := 0
  modelSha256 := "c979f33e706862d09af662ba980930e58ee0801ee70c048f7ddbbf9589b18ee8"
  tokenizerSha256 := List.replicate 32 1
  templateSha256 := List.replicate 32 2
  layoutAbi := "muse-kv-layout-v1"
  dflashIdentitySha256 := none
  visionProjectorSha256 := none
  visionPreprocessingSha256 := none
  target :=
    { position := 1
      tokens := [42]
      elementsPerToken := 1
      layers := (List.range museLayerCount).map fun layer => ⟨UInt32.ofNat layer, 0, 1, .f16Le, [0, 0], [0, 0]⟩ }
  targetLogits := [0, 0x3f800000]
  dflash := none
  positionWitnesses := [42]
  samplerState :=
    let rng : Verifier.Mt19937Snapshot := ⟨List.replicate 624 7, 624⟩
    ⟨rng, rng, rng, rng, 0x41200000, 0, 0x41200000⟩
  samplerHistory := [42]
  detokenizerPending := ""
  stopMatcherPending := ""
  grammarState := none
  grammarSha256 := none
  canonicalReplayPlanJson := "[]"
  visionRows := []

example : (validateBundle (fun _ => .ok ()) (oneTokenBundle "s") "s").isOk := by decide +kernel

end Muser.Sessions

/-! ## The session registry

The records that a server keeps in memory, behind one lock. Each operation here is what is done while
the lock is held once; a failure leaves the records as they are.
-/

namespace Muser.Sessions

def maxLogicalSessions : ℕ := 64

/-- The replay table of a session is emptied when it has this many entries. -/
def maxReplays : ℕ := 64

structure IdempotencyRecord where
  expectedRevision : ℕ
  requestSha256 : Hash
  result : CachedGeneration
deriving DecidableEq

structure Record where
  revision : ℕ
  contextEpoch : ℕ
  bundle : Option SessionBundle
  busy : Bool
  saved : Bool
  idempotency : Table IdempotencyRecord

abbrev Registry := Table Record

inductive BeginMutation where
  | started (bundle : Option SessionBundle)
  | replay (result : CachedGeneration)

/-- A record without a committed state. -/
def Record.fresh : Record := ⟨0, 0, none, false, false, ∅⟩

/-- The record of a bundle that was on disk or came from elsewhere. -/
def Record.ofBundle (bundle : SessionBundle) : Record := ⟨bundle.revision, bundle.contextEpoch, some bundle, false, true, ∅⟩

namespace Registry

def create (registry : Registry) (id : String) : Except String Registry := do
  reject (registry.lookup id).isSome "session already exists"
  reject (maxLogicalSessions ≤ registry.entries.length) "logical session limit (64) reached"
  .ok (registry.insert id .fresh)

/-- Whether there was a session. -/
def delete (registry : Registry) (id : String) : Except String (Bool × Registry) := do
  reject ((registry.lookup id).any Record.busy) "session is busy"
  .ok ((registry.lookup id).isSome, registry.erase id)

def begin (registry : Registry) (id : String) (expectedRevision : ℕ) (idempotencyKey : String) (requestSha256 : Hash) :
    Except String (BeginMutation × Registry) :=
  match registry.lookup id with
  | none => .error "session does not exist"
  | some record =>
    match record.idempotency.lookup idempotencyKey with
    | some cached => do
      reject (cached.expectedRevision != expectedRevision || cached.requestSha256 != requestSha256)
        "Idempotency-Key is already bound to a different session mutation"
      .ok (.replay cached.result, registry)
    | none => do
      reject record.busy "session is busy"
      reject (record.revision != expectedRevision)
        s!"session revision conflict: expected {expectedRevision}, current {record.revision}"
      .ok (.started record.bundle, registry.insert id { record with busy := true })

def abort (registry : Registry) (id : String) : Registry :=
  match registry.lookup id with
  | none => registry
  | some record => registry.insert id { record with busy := false }

/-- Note an answer under its key; a full table is emptied first. -/
def remember (replays : Table IdempotencyRecord) (idempotencyKey : String) (entry : IdempotencyRecord) :
    Table IdempotencyRecord :=
  if maxReplays ≤ replays.entries.length then AList.insert idempotencyKey entry ∅ else replays.insert idempotencyKey entry

def commit (registry : Registry) (id : String) (expectedRevision : ℕ) (idempotencyKey : String) (requestSha256 : Hash)
    (bundle : SessionBundle) (result : CachedGeneration) : Except String (ℕ × Registry) :=
  match registry.lookup id with
  | none => .error "session disappeared"
  | some record => do
    reject (!record.busy || record.revision != expectedRevision) "session mutation lost its revision lease"
    reject (2 ^ 64 ≤ expectedRevision + 1) "session revision overflow"
    let revision := expectedRevision + 1
    .ok (revision, registry.insert id
      { revision := revision
        contextEpoch := bundle.contextEpoch
        bundle := some { bundle with revision := revision }
        busy := false
        saved := false
        idempotency := remember record.idempotency idempotencyKey
          ⟨expectedRevision, requestSha256, { result with revision := revision }⟩ })

/-- The committed state of a session that is not being changed. -/
def committed (registry : Registry) (id : String) : Except String SessionBundle :=
  match registry.lookup id with
  | none => .error "session does not exist"
  | some record => do
    reject record.busy "session is busy"
    match record.bundle with
    | none => .error "session has no committed state"
    | some bundle => .ok bundle

def markSaved (registry : Registry) (id : String) : Registry :=
  match registry.lookup id with
  | none => registry
  | some record => registry.insert id { record with saved := true }

/-- Put a bundle from disk in the place of a session, whatever it is doing. -/
def restore (registry : Registry) (id : String) (bundle : SessionBundle) : Except String Registry := do
  reject (maxLogicalSessions ≤ registry.entries.length && (registry.lookup id).isNone) "logical session limit (64) reached"
  .ok (registry.insert id (.ofBundle bundle))

/-- What an imported bundle waits for. -/
def admitsImport (registry : Registry) (bundle : SessionBundle) : Except String Unit := do
  reject (maxLogicalSessions ≤ registry.entries.length && (registry.lookup bundle.sessionId).isNone)
    "logical session limit (64) reached"
  reject ((registry.lookup bundle.sessionId).any Record.busy) "destination session is busy"

section Answers

variable {registry after : Registry} {id key : String} {revision next : ℕ} {hash : Hash}

theorem create_ok (is : registry.create id = .ok after) : registry.lookup id = none ∧ after = registry.insert id .fresh := by
  simp only [create, check_eq_ok_iff, reject_eq_ok_iff] at is
  exact ⟨Option.isSome_eq_false_iff.mp is.1 |> Option.isNone_iff_eq_none.mp, (Except.ok.inj is.2.2).symm⟩

theorem delete_ok {found : Bool} (is : registry.delete id = .ok (found, after)) :
    (registry.lookup id).any Record.busy = false ∧ after = registry.erase id := by
  simp only [delete, check_eq_ok_iff, reject_eq_ok_iff] at is
  exact ⟨is.1, (Prod.mk.inj (Except.ok.inj is.2)).2.symm⟩

/-- A mutation is replayed from the table, or it starts on a session that is idle and at its revision. -/
theorem begin_ok {mutation : BeginMutation} (is : registry.begin id revision key hash = .ok (mutation, after)) :
    ∃ record, registry.lookup id = some record ∧
      ((∃ cached, record.idempotency.lookup key = some cached ∧ cached.expectedRevision = revision ∧
          cached.requestSha256 = hash ∧ mutation = .replay cached.result ∧ after = registry) ∨
        (record.idempotency.lookup key = none ∧ record.busy = false ∧ record.revision = revision ∧
          mutation = .started record.bundle ∧ after = registry.insert id { record with busy := true })) := by
  rw [begin] at is
  split at is
  · cases is
  · next record found =>
    refine ⟨record, found, ?_⟩
    split at is
    · next cached known =>
      simp only [check_eq_ok_iff, reject_eq_ok_iff, Bool.or_eq_false_iff, bne_eq_false_iff_eq] at is
      obtain ⟨⟨same, same'⟩, is⟩ := is
      cases is
      exact .inl ⟨cached, known, same, same', rfl, rfl⟩
    · next unknown =>
      simp only [check_eq_ok_iff, reject_eq_ok_iff, bne_eq_false_iff_eq] at is
      obtain ⟨idle, same, is⟩ := is
      cases is
      exact .inr ⟨unknown, idle, same, rfl, rfl⟩

variable {bundle : SessionBundle}

/-- A commit takes a busy session at its revision to the next. -/
theorem commit_ok {result : CachedGeneration}
    (is : registry.commit id revision key hash bundle result = .ok (next, after)) :
    ∃ record, registry.lookup id = some record ∧ record.busy = true ∧ record.revision = revision ∧ next = revision + 1 ∧
      after = registry.insert id ⟨next, bundle.contextEpoch, some { bundle with revision := next }, false, false,
        remember record.idempotency key ⟨revision, hash, { result with revision := next }⟩⟩ := by
  rw [commit] at is
  split at is
  · cases is
  · next record found =>
    simp only [check_eq_ok_iff, reject_eq_ok_iff, Bool.or_eq_false_iff, bne_eq_false_iff_eq, Bool.not_eq_false'] at is
    obtain ⟨⟨busy, same⟩, -, is⟩ := is
    cases is
    exact ⟨record, found, busy, same, rfl, rfl⟩

theorem committed_ok (is : registry.committed id = .ok bundle) :
    ∃ record, registry.lookup id = some record ∧ record.bundle = some bundle := by
  rw [committed] at is
  split at is
  · cases is
  · next record found =>
    rw [check_eq_ok_iff] at is
    obtain ⟨-, is⟩ := is
    split at is
    · cases is
    · next has =>
      cases is
      exact ⟨record, found, has⟩

theorem restore_ok (is : registry.restore id bundle = .ok after) :
    after = registry.insert id (.ofBundle bundle) := by
  simp only [restore, check_eq_ok_iff] at is
  exact (Except.ok.inj is.2).symm

theorem admitsImport_ok (is : registry.admitsImport bundle = .ok ()) :
    (registry.lookup bundle.sessionId).any Record.busy = false := by
  simp only [admitsImport, check_eq_ok_iff, reject_eq_ok_iff] at is
  exact is.2

/-- A record changed in place where there is one. -/
theorem lookup_changed {change : Record → Record} (absent : registry.lookup id = none → after = registry)
    (present : ∀ record, registry.lookup id = some record → after = registry.insert id (change record))
    (other : String) :
    after.lookup other = if other = id then (registry.lookup id).map change else registry.lookup other := by
  cases found : registry.lookup id with
  | none =>
    rw [absent found]
    split
    · next same => rw [same, found, Option.map_none]
    · rfl
  | some record =>
    rw [present record found, Table.lookup_insert_eq]
    rfl

/-- A change that keeps the bundles and their revisions brings none. -/
theorem bundle_of_changed {record : Record} {change : Record → Record}
    (looks : after.lookup other = if other = id then (registry.lookup id).map change else registry.lookup other)
    (keeps : ∀ record, (change record).bundle = record.bundle ∧ (change record).revision = record.revision)
    (found : after.lookup other = some record) :
    ∃ earlier, registry.lookup other = some earlier ∧ earlier.bundle = record.bundle ∧
      earlier.revision = record.revision := by
  rw [looks] at found
  split at found
  · next same =>
    obtain ⟨earlier, known, rfl⟩ := Option.map_eq_some_iff.mp found
    exact ⟨earlier, same ▸ known, (keeps earlier).1.symm, (keeps earlier).2.symm⟩
  · exact ⟨record, found, rfl, rfl⟩

theorem lookup_abort (registry : Registry) (id other : String) : (registry.abort id).lookup other =
    if other = id then (registry.lookup id).map fun record => { record with busy := false } else registry.lookup other :=
  lookup_changed (fun absent => by simp [abort, absent]) (fun record found => by simp [abort, found]) other

theorem lookup_markSaved (registry : Registry) (id other : String) : (registry.markSaved id).lookup other =
    if other = id then (registry.lookup id).map fun record => { record with saved := true } else registry.lookup other :=
  lookup_changed (fun absent => by simp [markSaved, absent]) (fun record found => by simp [markSaved, found]) other

end Answers

end Registry

end Muser.Sessions
