import Muser.Lib.Prog
import Muser.AuthoritativeVerifier.Records

/-! # The durable verifier journal

The journal keeps its state in memory and writes one record per transition. Every operation runs
over a `World`: the journal, its files, and the history that the statements about whole runs refer
to. A file operation succeeds, fails without effect, or stops in the middle of a write, as the
caller's `faults` decide; a failing operation keeps the effects it had.
-/

namespace Muser.Verifier

/-- The in-memory state of `DurableVerifierJournalV2`. -/
structure Journal where
  key : MacKey
  session : AuthenticatedSessionV2
  sessionRecordSha256 : String
  evaluatedTokens : List UInt32
  outputHeight : UInt64
  headSha256 : String
  frontier : FrontierV2
  samplerState : SamplerStateV2
  reservations : Table ReservationRecordV2
  prepared : Table PreparedRecordV2
  staged : Table StagedRecordV2
  completions : Table AuthenticatedResultV2
  acknowledgements : Table AckRecordV2
  tombstones : Table TombstoneRecordV2
  pendingActivation : Option CommitRecordV2

inductive ReserveOutcomeV2 where
  | reserved
  | prepared (result : AuthenticatedResultV2)
  | replay (result : AuthenticatedResultV2)
  | stale (outputHeight : UInt64) (headSha256 : String) (frontier : FrontierV2) (samplerState : SamplerStateV2)
      (transcriptSha256 : String)
deriving DecidableEq

inductive PendingRoundV2 where
  | reserved (request : AuthenticatedRoundV2)
  | prepared (request : AuthenticatedRoundV2) (result : AuthenticatedResultV2)
  | staged (request : AuthenticatedRoundV2) (result : AuthenticatedResultV2) (renderer : RendererStageReceiptV2)
deriving DecidableEq

/-- `AuthorityFenceV2::permits`, on the session, writer, lease, term, executor and clock. -/
structure AuthorityFenceV2 where
  permits : String → String → String → UInt64 → String → UInt64 → Bool

/-- `VerifierRendererV2`; each answer depends on the arguments of its call. -/
structure VerifierRendererV2 (p : Primitives) where
  stage : AuthenticatedResultV2 → VerifiedClosureV2 p → UInt64 → Except String RendererStageReceiptV2
  activate : RendererStageReceiptV2 → Except String Unit

/-- The durable steps of the journal. -/
inductive FileOp where
  | writeSlot (directory : Slot) (stem : String)
  | writeFragment (digest : String)
  | removeSlot (directory : Slot) (stem : String)
  | removeFragment (digest : String)
  | syncRoot
deriving DecidableEq

/-- How one durable step ends. A torn write has created its file and stops after `written` bytes. -/
inductive Fault where
  | done
  | failed
  | torn (written : ℕ)
deriving DecidableEq

/-- The journal, its files and its history: the receipts renderers were told to show, the records
that became whole files, and the commits that were activated, each in order. -/
structure World where
  journal : Journal
  disk : Disk
  activations : List RendererStageReceiptV2
  written : List (Σ directory : Slot, directory.Record)
  activated : List CommitRecordV2

def ioFailure : VerifierV2Error := .io "file operation failed"

namespace Journal

def fromSession (p : Primitives) (key : MacKey) (session : AuthenticatedSessionV2) : Journal where
  key
  session
  sessionRecordSha256 := session.recordDigest p
  evaluatedTokens := session.core.initialEvaluatedTokens
  outputHeight := session.core.initialOutputHeight
  headSha256 := session.core.genesisHeadSha256
  frontier := session.core.initialFrontier
  samplerState := session.core.initialSamplerState
  reservations := ∅
  prepared := ∅
  staged := ∅
  completions := ∅
  acknowledgements := ∅
  tombstones := ∅
  pendingActivation := none

def completedResult (journal : Journal) (requestId : String) : Option AuthenticatedResultV2 :=
  journal.completions.lookup requestId

def checkLiveFence (journal : Journal) (fence : AuthorityFenceV2) (nowUnixMs : UInt64) : Result Unit :=
  let core := journal.session.core
  reject (!fence.permits core.sessionId core.logWriterAuthorityId core.authorityLeaseId core.authorityTerm
    core.targetExecutorId nowUnixMs) .leaseNotLive

def matchesCurrentParent (p : Primitives) (journal : Journal) (request : AuthenticatedRoundV2) : Bool :=
  request.core.baseOutputHeight == journal.outputHeight && request.core.baseHeadSha256 == journal.headSha256 &&
    request.core.frontierIn == journal.frontier && request.core.baseSamplerState == journal.samplerState &&
    request.core.baseEvaluatedTokens == journal.evaluatedTokens &&
    request.core.baseTokensSha256 == tokenDigest p journal.evaluatedTokens

/-- The reservations `pending_round` considers. -/
def isCandidate (p : Primitives) (journal : Journal) (entry : Σ _ : String, ReservationRecordV2) : Bool :=
  !(journal.completions.lookup entry.1).isSome && !(journal.tombstones.lookup entry.1).isSome &&
    journal.matchesCurrentParent p entry.2.request

/-- The phase a reservation has reached. -/
def phase (journal : Journal) (requestId : String) (request : AuthenticatedRoundV2) : PendingRoundV2 :=
  match journal.prepared.lookup requestId with
  | none => .reserved request
  | some prepared =>
    match journal.staged.lookup requestId with
    | none => .prepared request prepared.result
    | some staged => .staged request prepared.result staged.renderer

def pendingRound (p : Primitives) (journal : Journal) : Result (Option PendingRoundV2) := do
  reject journal.pendingActivation.isSome
    (invalid "journal has a WAL-committed activation; recover it before resuming rounds")
  match journal.reservations.entries.filter (journal.isCandidate p) with
  | [] => pure none
  | [⟨requestId, reservation⟩] => pure (some (journal.phase requestId reservation.request))
  | _ => .error (invalid "journal has multiple unfinished children of the current head")

/-- The tail of `reserve` for an id the journal has not seen: `none` asks for a new reservation. -/
def reserveFresh (p : Primitives) (journal : Journal) (request : AuthenticatedRoundV2) (fence : AuthorityFenceV2)
    (nowUnixMs : UInt64) : Result (Option ReserveOutcomeV2) := do
  journal.checkLiveFence fence nowUnixMs
  reject (match journal.frontier with | .closed _ => true | .opened _ _ => false) .terminal
  request.verifyLive p journal.session.core journal.key nowUnixMs
  if journal.matchesCurrentParent p request then
    reject (journal.reservations.entries.any fun entry =>
      entry.2.request.core.baseHeadSha256 == journal.headSha256 &&
        entry.2.request.core.requestId != request.core.requestId) .busyParent
    pure none
  else
    pure (some (.stale journal.outputHeight journal.headSha256 journal.frontier journal.samplerState
      (tokenDigest p journal.evaluatedTokens)))

/-- The answers `reserve` gives without writing. -/
def reserveCheck (p : Primitives) (journal : Journal) (request : AuthenticatedRoundV2) (fence : AuthorityFenceV2)
    (nowUnixMs : UInt64) : Result (Option ReserveOutcomeV2) := do
  reject journal.pendingActivation.isSome (invalid "journal has an unactivated committed result")
  request.verifyHistorical p journal.session.core journal.key
  let requestId := request.core.requestId
  let intent := request.intentSha256 p
  reject (match journal.tombstones.lookup requestId with
    | some tombstone => tombstone.requestId == requestId
    | none => false) .resyncRequired
  match journal.completions.lookup requestId, journal.prepared.lookup requestId,
      journal.reservations.lookup requestId with
  | some result, _, _ =>
    reject (result.core.requestIntentSha256 != intent) .changedIntent
    pure (some (.replay result))
  | none, some prepared, _ =>
    reject (prepared.requestIntentSha256 != intent) .changedIntent
    pure (some (.prepared prepared.result))
  | none, none, some reservation =>
    reject (reservation.request.intentSha256 p != intent) .changedIntent
    pure (some .reserved)
  | none, none, none => journal.reserveFresh p request fence nowUnixMs

/-- Advance the head by one verified result, once. -/
def applyActive (p : Primitives) (journal : Journal) (request : AuthenticatedRoundV2)
    (result : AuthenticatedResultV2) : Result Journal := do
  result.verifyAgainst p request journal.session.core
  match journal.completions.lookup request.core.requestId with
  | some existing =>
    reject (existing != result) .changedIntent
    pure journal
  | none =>
    reject (!journal.matchesCurrentParent p request) .staleHead
    pure {
      journal with
      evaluatedTokens := journal.evaluatedTokens ++ result.core.committedTokens
      outputHeight := result.core.newOutputHeight
      headSha256 := result.core.newHeadSha256
      frontier := result.core.newFrontier
      samplerState := result.core.postVerifySamplerState
      completions := journal.completions.insert request.core.requestId result }

end Journal

/-- Replace the payload directory. -/
def World.setFragments (world : World) (fragments : Table Bytes) : World :=
  { world with disk := { world.disk with fragments } }

/-- Replace a record directory. -/
def World.setFiles (world : World) (directory : Slot) (files : Table (SlotFile directory.Record)) : World :=
  { world with disk := world.disk.setSlots directory files }

/-- Change the journal in memory. -/
def World.setJournal (world : World) (change : Journal → Journal) : World :=
  { world with journal := change world.journal }

section Files

variable (p : Primitives) (faults : FileOp → Fault)

/-- Put a file in place. Once it is whole, its record belongs to the history. -/
def World.placeSlot (world : World) (directory : Slot) (stem : String) (file : SlotFile directory.Record) : World :=
  { world with
    disk := world.disk.setSlots directory ((world.disk.slots directory).insert stem file)
    written := match file with
      | .whole envelope => world.written ++ [⟨directory, envelope.payload⟩]
      | .torn _ => world.written }

/-- `write_exclusive` of a record that has no file yet. -/
def writeExclusive (directory : Slot) (stem : String) (envelope : JournalEnvelopeV2 directory.Record) :
    Prog World VerifierV2Error Unit :=
  match faults (.writeSlot directory stem) with
  | .done => .modify (·.placeSlot directory stem (.whole envelope))
  | .failed => .fail ioFailure
  | .torn written => do
    .modify (·.placeSlot directory stem (.prefixOf envelope written))
    .fail ioFailure

def writeSlot (directory : Slot) (requestId : String) (record : directory.Record) :
    Prog World VerifierV2Error Unit := do
  let world ← .read
  let envelope ← .lift (journalEnvelope p directory.kind world.journal.sessionRecordSha256 record world.journal.key)
  match (world.disk.slots directory).lookup (slotStem p requestId) with
  | some file =>
    let existing ← .lift (file.readJson p slotFileLimit)
    .lift (reject (canonical existing != canonical envelope) .changedIntent)
  | none => writeExclusive faults directory (slotStem p requestId) envelope

def writeActive (active : ActiveRecordV2) : Prog World VerifierV2Error Unit := do
  let world ← .read
  match (world.disk.slots .active).lookup (slotStem p active.requestId) with
  | some file =>
    let envelope ← .lift (file.readJson p slotFileLimit)
    let existing ← .lift (decodeJournal p envelope "active" world.journal.sessionRecordSha256 world.journal.key)
    .lift (reject (existing.requestId != active.requestId || existing.resultSha256 != active.resultSha256 ||
      existing.newHeadSha256 != active.newHeadSha256) .changedIntent)
  | none => writeSlot p faults .active active.requestId active

/-- Put one payload in place. -/
def putFragment (digest : String) (payload : Bytes) : Prog World VerifierV2Error Unit :=
  .modify fun world => world.setFragments (world.disk.fragments.insert digest payload)

/-- Store one content-addressed payload, or check the one that is there. -/
def writeFragment (fragment : VerifiedFragmentV2) : Prog World VerifierV2Error Unit := do
  let world ← .read
  match world.disk.fragments.lookup fragment.descriptor.sha256 with
  | some payload => .lift (reject (payload != fragment.payload) (invalid "content-addressed fragment collision"))
  | none =>
    match faults (.writeFragment fragment.descriptor.sha256) with
    | .done => putFragment fragment.descriptor.sha256 fragment.payload
    | .failed => .fail ioFailure
    | .torn written => do
      putFragment fragment.descriptor.sha256 (fragment.payload.take written)
      .fail ioFailure

/-- Unlink a record file if it is there; an unlink either happens or fails. -/
def removeSlot (requestId : String) (directory : Slot) : Prog World VerifierV2Error Unit := do
  let world ← .read
  match (world.disk.slots directory).lookup (slotStem p requestId),
      faults (.removeSlot directory (slotStem p requestId)) with
  | none, _ => pure ()
  | some _, .done =>
    .modify fun world => world.setFiles directory ((world.disk.slots directory).erase (slotStem p requestId))
  | some _, _ => .fail ioFailure

/-- Unlink a payload if it is there; answers how many files were removed. -/
def removeFragment (digest : String) : Prog World VerifierV2Error ℕ := do
  let world ← .read
  match world.disk.fragments.lookup digest, faults (.removeFragment digest) with
  | none, _ => pure 0
  | some _, .done => do
    .modify fun world => world.setFragments (world.disk.fragments.erase digest)
    pure 1
  | some _, _ => .fail ioFailure

def syncRoot : Prog World VerifierV2Error Unit :=
  match faults .syncRoot with
  | .done => pure ()
  | _ => .fail ioFailure

end Files

section Operations

variable (p : Primitives) (faults : FileOp → Fault)

def reserve (request : AuthenticatedRoundV2) (fence : AuthorityFenceV2) (nowUnixMs : UInt64) :
    Prog World VerifierV2Error ReserveOutcomeV2 := do
  let world ← .read
  match ← .lift (world.journal.reserveCheck p request fence nowUnixMs) with
  | some outcome => pure outcome
  | none =>
    let requestId := request.core.requestId
    let record : ReservationRecordV2 := ⟨request, nowUnixMs⟩
    writeSlot p faults .reservations requestId record
    .modify (·.setJournal fun journal =>
      { journal with reservations := journal.reservations.insert requestId record })
    pure .reserved

/-- The checks of `record_prepared`: `none` asks for a new record. -/
def Journal.preparedCheck (journal : Journal) (request : AuthenticatedRoundV2) (result : AuthenticatedResultV2)
    (fence : AuthorityFenceV2) (nowUnixMs : UInt64) : Result (Option Unit) := do
  journal.checkLiveFence fence nowUnixMs
  result.verifyAgainst p request journal.session.core
  match journal.reservations.lookup request.core.requestId with
  | none => .error (invalid "result has no durable reservation")
  | some reservation =>
    reject (reservation.request != request || !journal.matchesCurrentParent p request) .staleHead
    match journal.prepared.lookup request.core.requestId with
    | some existing =>
      reject (existing.result != result) .changedIntent
      pure (some ())
    | none => pure none

def recordPrepared (request : AuthenticatedRoundV2) (result : AuthenticatedResultV2) (fence : AuthorityFenceV2)
    (nowUnixMs : UInt64) : Prog World VerifierV2Error Unit := do
  let world ← .read
  match ← .lift (world.journal.preparedCheck p request result fence nowUnixMs) with
  | some answer => pure answer
  | none =>
    let requestId := request.core.requestId
    let record : PreparedRecordV2 := ⟨request.intentSha256 p, result, nowUnixMs⟩
    writeSlot p faults .prepared requestId record
    .modify (·.setJournal fun journal => { journal with prepared := journal.prepared.insert requestId record })

/-- The checks of `stage_result`: the prepared record, and the receipt if it is already staged. -/
def Journal.stageCheck (journal : Journal) (request : AuthenticatedRoundV2) (closure : VerifiedClosureV2 p) :
    Result (PreparedRecordV2 × Option RendererStageReceiptV2) :=
  match journal.prepared.lookup request.core.requestId with
  | none => .error (invalid "cannot stage before PREPARED")
  | some prepared => do
    closure.verifyResult prepared.result
    match journal.staged.lookup request.core.requestId with
    | some existing =>
      reject (existing.resultSha256 != prepared.result.recordDigest p) .changedIntent
      pure (prepared, some existing.renderer)
    | none => pure (prepared, none)

def stageResult (request : AuthenticatedRoundV2) (closure : VerifiedClosureV2 p) (renderer : VerifierRendererV2 p)
    (nowUnixMs : UInt64) : Prog World VerifierV2Error RendererStageReceiptV2 := do
  let world ← .read
  match ← .lift (world.journal.stageCheck p request closure) with
  | (_, some receipt) => pure receipt
  | (prepared, none) =>
    let requestId := request.core.requestId
    forM closure.fragments (writeFragment faults)
    let receipt ← .lift ((renderer.stage prepared.result closure nowUnixMs).mapError .renderer)
    .lift (validateStageReceipt p receipt prepared.result)
    let record : StagedRecordV2 :=
      ⟨requestId, prepared.requestIntentSha256, prepared.result.recordDigest p, receipt, nowUnixMs⟩
    writeSlot p faults .staged requestId record
    .modify (·.setJournal fun journal => { journal with staged := journal.staged.insert requestId record })
    pure receipt

/-- `apply_active` on the running journal; an activation that advances the head enters the history. -/
def activateCommit (commit : CommitRecordV2) : Prog World VerifierV2Error Unit := do
  let world ← .read
  let journal ← .lift (world.journal.applyActive p commit.request commit.result)
  .modify fun world =>
    { world with
      journal
      activated := match world.journal.completions.lookup commit.request.core.requestId with
        | some _ => world.activated
        | none => world.activated ++ [commit] }

def recoverPending (renderer : VerifierRendererV2 p) (nowUnixMs : UInt64) : Prog World VerifierV2Error Unit := do
  let world ← .read
  match world.journal.pendingActivation with
  | none => pure ()
  | some commit =>
    .lift (validateStageReceipt p commit.renderer commit.result)
    .lift ((renderer.activate commit.renderer).mapError .renderer)
    .modify fun world => { world with activations := world.activations ++ [commit.renderer] }
    writeActive p faults {
      requestId := commit.request.core.requestId
      resultSha256 := commit.result.recordDigest p
      newHeadSha256 := commit.result.core.newHeadSha256
      activatedUnixMs := nowUnixMs }
    activateCommit p commit
    .modify (·.setJournal fun journal => { journal with pendingActivation := none })

/-- The checks of `commit_and_activate` once no activation is pending: the result it replays, or the
commit record to write. -/
def Journal.commitCheck (journal : Journal) (request : AuthenticatedRoundV2) (fence : AuthorityFenceV2)
    (nowUnixMs : UInt64) : Result (AuthenticatedResultV2 ⊕ CommitRecordV2) := do
  journal.checkLiveFence fence nowUnixMs
  match journal.completions.lookup request.core.requestId with
  | some result => pure (.inl result)
  | none =>
    match journal.prepared.lookup request.core.requestId, journal.staged.lookup request.core.requestId with
    | none, _ => .error (invalid "cannot commit before PREPARED")
    | some _, none => .error (invalid "cannot commit before durable renderer stage")
    | some prepared, some staged =>
      reject (prepared.requestIntentSha256 != request.intentSha256 p ||
        staged.resultSha256 != prepared.result.recordDigest p || !journal.matchesCurrentParent p request) .staleHead
      pure (.inr ⟨request, prepared.result, staged.renderer, nowUnixMs⟩)

def commitAndActivate (request : AuthenticatedRoundV2) (fence : AuthorityFenceV2) (renderer : VerifierRendererV2 p)
    (nowUnixMs : UInt64) : Prog World VerifierV2Error AuthenticatedResultV2 := do
  recoverPending p faults renderer nowUnixMs
  let world ← .read
  match ← .lift (world.journal.commitCheck p request fence nowUnixMs) with
  | .inl result => pure result
  | .inr commit =>
    writeSlot p faults .commits request.core.requestId commit
    .modify (·.setJournal fun journal => { journal with pendingActivation := some commit })
    recoverPending p faults renderer nowUnixMs
    let world ← .read
    match world.journal.completions.lookup request.core.requestId with
    | some result => pure result
    | none => .fail (invalid "activation did not publish completion")

/-- The checks of `acknowledge`: `none` means that the ACK is already recorded. -/
def Journal.ackCheck (journal : Journal) (requestId appliedHeadSha256 : String) (nowUnixMs : UInt64) :
    Result (Option AckRecordV2) := do
  validateDigest "applied head" appliedHeadSha256
  match journal.completions.lookup requestId with
  | none => .error (invalid "cannot ACK an unknown completion")
  | some result =>
    reject (appliedHeadSha256 != result.core.newHeadSha256) (invalid "ACK head differs from completion")
    let ack : AckRecordV2 := ⟨requestId, result.recordDigest p, appliedHeadSha256, nowUnixMs⟩
    match journal.acknowledgements.lookup requestId with
    | some existing =>
      reject (existing != ack && existing.resultSha256 != ack.resultSha256) .changedIntent
      pure none
    | none => pure (some ack)

def acknowledge (requestId appliedHeadSha256 : String) (nowUnixMs : UInt64) : Prog World VerifierV2Error Unit := do
  let world ← .read
  match ← .lift (world.journal.ackCheck p requestId appliedHeadSha256 nowUnixMs) with
  | none => pure ()
  | some ack =>
    writeSlot p faults .acks requestId ack
    .modify (·.setJournal fun journal =>
      { journal with acknowledgements := journal.acknowledgements.insert requestId ack })

/-- The checks of `garbage_collect`: the result to retire, and the tombstone to write unless a
previous cleanup already left one. -/
def Journal.retireCheck (journal : Journal) (requestId : String) (nowUnixMs retryRetentionMs : UInt64) :
    Result (AuthenticatedResultV2 × Option TombstoneRecordV2) :=
  match journal.completions.lookup requestId with
  | none => .error (invalid "cannot retire an unknown completion")
  | some result =>
    let resultSha256 := result.recordDigest p
    match journal.tombstones.lookup requestId with
    | some tombstone => do
      reject (tombstone.resultSha256 != resultSha256) .changedIntent
      pure (result, none)
    | none =>
      match journal.acknowledgements.lookup requestId with
      | none => .error (invalid "cannot retire an unacknowledged completion")
      | some ack => do
        reject (ack.resultSha256 != resultSha256 ||
          nowUnixMs.toNat < saturatingAdd result.core.completedUnixMs retryRetentionMs)
          (invalid "completion retry retention has not elapsed")
        pure (result, some ⟨requestId, resultSha256, nowUnixMs⟩)

/-- The digests that other results in memory still name. -/
def Journal.protectedDigests (journal : Journal) (requestId : String) : List String :=
  (journal.completions.entries.filter (·.1 != requestId)).flatMap
      (fun entry => entry.2.core.fragments.map (·.sha256)) ++
    (journal.prepared.entries.filter (·.1 != requestId)).flatMap
      (fun entry => entry.2.result.core.fragments.map (·.sha256))

/-- Unlink the fragments of a retired result that nothing protects; answers how many. -/
def removeFragments (kept : List String) : List FragmentDescriptorV2 → Prog World VerifierV2Error ℕ
  | [] => pure 0
  | fragment :: rest => do
    let removed ← if kept.contains fragment.sha256 then pure 0 else removeFragment faults fragment.sha256
    let others ← removeFragments kept rest
    pure (removed + others)

/-- Forget a retired request in memory. -/
def Journal.forget (journal : Journal) (requestId : String) : Journal :=
  { journal with
    reservations := journal.reservations.erase requestId
    prepared := journal.prepared.erase requestId
    staged := journal.staged.erase requestId
    completions := journal.completions.erase requestId
    acknowledgements := journal.acknowledgements.erase requestId }

/-- Publish the tombstone that linearizes a retirement. -/
def publishTombstone (requestId : String) : Option TombstoneRecordV2 → Prog World VerifierV2Error Unit
  | none => pure ()
  | some tombstone => do
    writeSlot p faults .tombstones requestId tombstone
    .modify (·.setJournal fun journal => { journal with tombstones := journal.tombstones.insert requestId tombstone })

def garbageCollect (requestId : String) (nowUnixMs retryRetentionMs : UInt64) :
    Prog World VerifierV2Error ℕ := do
  let world ← .read
  let (result, tombstone) ← .lift (world.journal.retireCheck p requestId nowUnixMs retryRetentionMs)
  publishTombstone p faults requestId tombstone
  let removed ← removeFragments faults (world.journal.protectedDigests requestId) result.core.fragments
  forM [Slot.reservations, .prepared, .staged, .acks] (removeSlot p faults requestId)
  syncRoot faults
  .modify (·.setJournal (·.forget requestId))
  pure removed

end Operations

end Muser.Verifier
