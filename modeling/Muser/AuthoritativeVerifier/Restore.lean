import Muser.AuthoritativeVerifier.Journal

/-! # Creating and reopening a journal

`openJournal` rebuilds the in-memory state from files alone. The commit records are an unordered
set; the restore loop orders them by following parents from the genesis head, and treats a last
commit without an active record as a pending activation.
-/

namespace Muser.Verifier

section Readers

variable (p : Primitives)

/-- Read and authenticate one record file. -/
def readRecord (journal : Journal) (directory : Slot) (file : SlotFile directory.Record) :
    Result directory.Record := do
  let envelope ← file.readJson p slotFileLimit
  decodeJournal p envelope directory.kind journal.sessionRecordSha256 journal.key

/-- The loop of `read_slots` over directory entries, with the records read so far. -/
def readSlotsFrom (journal : Journal) (directory : Slot) :
    List (Σ _ : String, SlotFile directory.Record) → Table directory.Record → Result (Table directory.Record)
  | [], records => pure records
  | ⟨stem, file⟩ :: rest, records => do
    let record ← readRecord p journal directory file
    let requestId := directory.requestId record
    reject (slotStem p requestId != stem || (records.lookup requestId).isSome)
      (invalid "journal slot filename or identity differs")
    readSlotsFrom journal directory rest (records.insert requestId record)

def readSlots (journal : Journal) (disk : Disk) (directory : Slot) : Result (Table directory.Record) :=
  readSlotsFrom p journal directory (disk.slots directory).entries ∅

/-- One descriptor against the stored payload. -/
def verifyFragment (fragments : Table Bytes) (descriptor : FragmentDescriptorV2) : Result Unit :=
  match fragments.lookup descriptor.sha256 with
  | none => .error (.io "No such file or directory")
  | some payload => do
    reject (payload.length != descriptor.byteLen.toNat) (invalid "staged fragment CAS object mode or length differs")
    reject (p.sha256Hex payload != descriptor.sha256) (invalid "staged fragment CAS digest differs")

def verifyFragmentCas (disk : Disk) (result : AuthenticatedResultV2) : Result Unit :=
  forM result.core.fragments (verifyFragment p disk.fragments)

end Readers

section Restore

variable (p : Primitives)

/-- A prepared record must follow its reservation. -/
def restorePrepared (journal : Journal) (entry : Σ _ : String, PreparedRecordV2) : Result Unit :=
  match journal.reservations.lookup entry.1 with
  | none => .error (invalid "PREPARED record has no reservation")
  | some reservation => do
    reject (entry.2.requestIntentSha256 != reservation.request.intentSha256 p)
      (invalid "PREPARED intent differs from reservation")
    entry.2.result.verifyAgainst p reservation.request journal.session.core

/-- A staged record must follow its prepared result, with its payloads in place. -/
def restoreStaged (journal : Journal) (disk : Disk) (entry : Σ _ : String, StagedRecordV2) : Result Unit :=
  match journal.prepared.lookup entry.1 with
  | none => .error (invalid "staged render has no PREPARED result")
  | some prepared => do
    reject (entry.2.requestIntentSha256 != prepared.requestIntentSha256 ||
      entry.2.resultSha256 != prepared.result.recordDigest p) (invalid "staged render differs from PREPARED result")
    validateStageReceipt p entry.2.renderer prepared.result
    verifyFragmentCas p disk prepared.result

/-- The records before any commit, without those a tombstone has retired. -/
def restoreUncommitted (journal : Journal) (disk : Disk) : Result Journal := do
  let tombstones ← readSlots p journal disk .tombstones
  let reservations ← readSlots p journal disk .reservations
  let prepared ← readSlots p journal disk .prepared
  let staged ← readSlots p journal disk .staged
  let acknowledgements ← readSlots p journal disk .acks
  let live (requestId : String) : Bool := !(tombstones.lookup requestId).isSome
  let journal := {
    journal with
    tombstones
    reservations := Table.retain live reservations
    prepared := Table.retain live prepared
    staged := Table.retain live staged
    acknowledgements }
  forM journal.reservations.entries fun entry => entry.2.request.verifyHistorical p journal.session.core journal.key
  forM journal.prepared.entries (restorePrepared p journal)
  forM journal.staged.entries (restoreStaged p journal disk)
  pure journal

/-- The payloads of a commit, which are gone only when a tombstone has retired it. -/
def verifyRetained (journal : Journal) (disk : Disk) (commit : CommitRecordV2) : Result Unit :=
  if (journal.tombstones.lookup commit.request.core.requestId).isSome then pure ()
  else verifyFragmentCas p disk commit.result

/-- One commit that follows the current parent. `last` says that no other commit remains. -/
def restoreCommit (disk : Disk) (active : Table ActiveRecordV2) (last : Bool) (commit : CommitRecordV2)
    (journal : Journal) : Result Journal := do
  commit.request.verifyHistorical p journal.session.core journal.key
  commit.result.verifyAgainst p commit.request journal.session.core
  validateStageReceipt p commit.renderer commit.result
  verifyRetained p journal disk commit
  match active.lookup commit.request.core.requestId with
  | some record =>
    reject (record.resultSha256 != commit.result.recordDigest p ||
      record.newHeadSha256 != commit.result.core.newHeadSha256) (invalid "active record differs from WAL commit")
    journal.applyActive p commit.request commit.result
  | none =>
    reject (!(journal.pendingActivation.isNone && last)) (invalid "journal commit/active chain is ambiguous")
    pure { journal with pendingActivation := some commit }

/-- The restore loop. Each iteration removes the one commit that follows the current parent, so it
runs as often as there are commits. -/
def restoreChain (disk : Disk) (active : Table ActiveRecordV2) :
    ℕ → Table CommitRecordV2 → Journal → Result Journal
  | 0, _, journal => pure journal
  | remaining + 1, commits, journal =>
    match commits.entries.filter fun entry => journal.matchesCurrentParent p entry.2.request with
    | [⟨requestId, commit⟩] => do
      let commits := commits.erase requestId
      let journal ← restoreCommit p disk active commits.entries.isEmpty commit journal
      restoreChain disk active remaining commits journal
    | _ => .error (invalid "journal commit chain is not uniquely causal")

/-- An ACK must belong to an active completion. -/
def restoreAck (journal : Journal) (entry : Σ _ : String, AckRecordV2) : Result Unit :=
  match journal.completions.lookup entry.1 with
  | none => .error (invalid "ACK has no active completion")
  | some completion =>
    reject (entry.2.resultSha256 != completion.recordDigest p ||
      entry.2.appliedHeadSha256 != completion.core.newHeadSha256) (invalid "ACK differs from active completion")

/-- A tombstone must belong to a retained commit. -/
def restoreTombstone (journal : Journal) (entry : Σ _ : String, TombstoneRecordV2) : Result Unit :=
  match journal.completions.lookup entry.1 with
  | none => .error (invalid "tombstone has no retained commit")
  | some completion =>
    reject (entry.2.resultSha256 != completion.recordDigest p) (invalid "tombstone differs from retained commit")

/-- Drop the unfinished-round records of completed requests. -/
def Journal.dropCompleted (journal : Journal) : Journal :=
  let unfinished (requestId : String) : Bool := !(journal.completions.lookup requestId).isSome
  { journal with
    reservations := Table.retain unfinished journal.reservations
    prepared := Table.retain unfinished journal.prepared
    staged := Table.retain unfinished journal.staged }

def restoreRecords (journal : Journal) (disk : Disk) : Result Journal := do
  let journal ← restoreUncommitted p journal disk
  let commits ← readSlots p journal disk .commits
  let active ← readSlots p journal disk .active
  reject (active.entries.any fun entry => !(commits.lookup entry.1).isSome)
    (invalid "active record has no WAL commit")
  let journal ← restoreChain p disk active commits.entries.length commits journal
  let journal := journal.dropCompleted
  forM journal.acknowledgements.entries (restoreAck p journal)
  forM journal.tombstones.entries (restoreTombstone p journal)
  pure journal

/-- `DurableVerifierJournalV2::open`. -/
def openJournal (disk : Disk) (key : MacKey) (expectedKeyId : String) (minimumEpoch : UInt64) : Result Journal := do
  reject ((canonical disk.session).length == 0 || sessionFileLimit < (canonical disk.session).length)
    (invalid "journal object mode or size differs")
  disk.session.verifyHistorical p key expectedKeyId minimumEpoch
  restoreRecords p (Journal.fromSession p key disk.session) disk

/-- The empty directories of a new journal beside its session file. -/
def Disk.fresh (session : AuthenticatedSessionV2) : Disk := ⟨session, fun _ => ∅, ∅⟩

/-- `DurableVerifierJournalV2::create`, in a new directory. -/
def create (session : AuthenticatedSessionV2) (key : MacKey) (nowUnixMs : UInt64) (expectedKeyId : String)
    (minimumEpoch : UInt64) : Result World := do
  session.verifyLive p key nowUnixMs expectedKeyId minimumEpoch
  pure {
    journal := Journal.fromSession p key session
    disk := Disk.fresh session
    activations := []
    written := []
    activated := [] }

end Restore

end Muser.Verifier
