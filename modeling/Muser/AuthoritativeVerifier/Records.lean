import Muser.Lib.Table
import Muser.AuthoritativeVerifier.Result

/-! # Journal records and the files that hold them

Each durable transition of the journal is one record in its own directory, sealed in an envelope
with an HMAC over its kind, session and payload. A file on disk is either a whole envelope or the
torn prefix that an interrupted write left behind; the readers refuse the latter.
-/

namespace Muser.Verifier

def verifierJournalProtocolV2 : String := "muser-verifier-journal-v2"
def verifierJournalMacDomainV2 : Bytes := utf8 "muser-verifier-journal-v2"

structure RendererStageReceiptV2 where
  resultSha256 : String
  renderRootSha256 : String
  stageToken : String
  stagedUnixMs : UInt64
deriving DecidableEq

instance : ToJson RendererStageReceiptV2 where
  toJson receipt := .obj [
    ("render_root_sha256", toJson receipt.renderRootSha256),
    ("result_sha256", toJson receipt.resultSha256),
    ("stage_token", toJson receipt.stageToken),
    ("staged_unix_ms", toJson receipt.stagedUnixMs)]

def validateStageReceipt (p : Primitives) (receipt : RendererStageReceiptV2) (result : AuthenticatedResultV2) :
    Result Unit := do
  validateDigest "renderer result" receipt.resultSha256
  validateDigest "renderer root" receipt.renderRootSha256
  validateIdentifier "renderer stage token" receipt.stageToken
  reject (receipt.resultSha256 != result.recordDigest p || receipt.renderRootSha256 != result.core.fragmentsSha256)
    (invalid "renderer stage belongs to a different result")

structure ReservationRecordV2 where
  request : AuthenticatedRoundV2
  reservedUnixMs : UInt64
deriving DecidableEq

structure PreparedRecordV2 where
  requestIntentSha256 : String
  result : AuthenticatedResultV2
  preparedUnixMs : UInt64
deriving DecidableEq

structure StagedRecordV2 where
  requestId : String
  requestIntentSha256 : String
  resultSha256 : String
  renderer : RendererStageReceiptV2
  stagedUnixMs : UInt64
deriving DecidableEq

structure CommitRecordV2 where
  request : AuthenticatedRoundV2
  result : AuthenticatedResultV2
  renderer : RendererStageReceiptV2
  committedUnixMs : UInt64
deriving DecidableEq

structure ActiveRecordV2 where
  requestId : String
  resultSha256 : String
  newHeadSha256 : String
  activatedUnixMs : UInt64
deriving DecidableEq

structure AckRecordV2 where
  requestId : String
  resultSha256 : String
  appliedHeadSha256 : String
  acknowledgedUnixMs : UInt64
deriving DecidableEq

structure TombstoneRecordV2 where
  requestId : String
  resultSha256 : String
  retiredUnixMs : UInt64
deriving DecidableEq

instance : ToJson ReservationRecordV2 where
  toJson record := .obj [
    ("request", toJson record.request),
    ("reserved_unix_ms", toJson record.reservedUnixMs)]

instance : ToJson PreparedRecordV2 where
  toJson record := .obj [
    ("prepared_unix_ms", toJson record.preparedUnixMs),
    ("request_intent_sha256", toJson record.requestIntentSha256),
    ("result", toJson record.result)]

instance : ToJson StagedRecordV2 where
  toJson record := .obj [
    ("renderer", toJson record.renderer),
    ("request_id", toJson record.requestId),
    ("request_intent_sha256", toJson record.requestIntentSha256),
    ("result_sha256", toJson record.resultSha256),
    ("staged_unix_ms", toJson record.stagedUnixMs)]

instance : ToJson CommitRecordV2 where
  toJson record := .obj [
    ("committed_unix_ms", toJson record.committedUnixMs),
    ("renderer", toJson record.renderer),
    ("request", toJson record.request),
    ("result", toJson record.result)]

instance : ToJson ActiveRecordV2 where
  toJson record := .obj [
    ("activated_unix_ms", toJson record.activatedUnixMs),
    ("new_head_sha256", toJson record.newHeadSha256),
    ("request_id", toJson record.requestId),
    ("result_sha256", toJson record.resultSha256)]

instance : ToJson AckRecordV2 where
  toJson record := .obj [
    ("acknowledged_unix_ms", toJson record.acknowledgedUnixMs),
    ("applied_head_sha256", toJson record.appliedHeadSha256),
    ("request_id", toJson record.requestId),
    ("result_sha256", toJson record.resultSha256)]

instance : ToJson TombstoneRecordV2 where
  toJson record := .obj [
    ("request_id", toJson record.requestId),
    ("result_sha256", toJson record.resultSha256),
    ("retired_unix_ms", toJson record.retiredUnixMs)]

/-- The record directories of a journal. -/
inductive Slot where
  | reservations
  | prepared
  | staged
  | commits
  | active
  | acks
  | tombstones
deriving DecidableEq

namespace Slot

/-- The envelope kind of the records in a directory. -/
def kind : Slot → String
  | .reservations => "reservation"
  | .prepared => "prepared"
  | .staged => "staged"
  | .commits => "commit"
  | .active => "active"
  | .acks => "ack"
  | .tombstones => "tombstone"

/-- The record type of a directory. -/
abbrev Record : Slot → Type
  | .reservations => ReservationRecordV2
  | .prepared => PreparedRecordV2
  | .staged => StagedRecordV2
  | .commits => CommitRecordV2
  | .active => ActiveRecordV2
  | .acks => AckRecordV2
  | .tombstones => TombstoneRecordV2

instance (directory : Slot) : ToJson directory.Record :=
  match directory with
  | .reservations => inferInstanceAs (ToJson ReservationRecordV2)
  | .prepared => inferInstanceAs (ToJson PreparedRecordV2)
  | .staged => inferInstanceAs (ToJson StagedRecordV2)
  | .commits => inferInstanceAs (ToJson CommitRecordV2)
  | .active => inferInstanceAs (ToJson ActiveRecordV2)
  | .acks => inferInstanceAs (ToJson AckRecordV2)
  | .tombstones => inferInstanceAs (ToJson TombstoneRecordV2)

/-- The request a record belongs to. -/
def requestId : (directory : Slot) → directory.Record → String
  | .reservations, record => record.request.core.requestId
  | .prepared, record => record.result.core.requestId
  | .staged, record => record.requestId
  | .commits, record => record.request.core.requestId
  | .active, record => record.requestId
  | .acks, record => record.requestId
  | .tombstones, record => record.requestId

end Slot

/-- The file name of a request, without its extension. -/
def slotStem (p : Primitives) (requestId : String) : String := p.sha256Hex (utf8 requestId)

structure JournalEnvelopeV2 (ρ : Type) where
  protocol : String
  kind : String
  sessionRecordSha256 : String
  payload : ρ
  hmacSha256 : String

structure JournalUnsignedV2 (ρ : Type) where
  protocol : String
  kind : String
  sessionRecordSha256 : String
  payload : ρ

instance {ρ : Type} [ToJson ρ] : ToJson (JournalUnsignedV2 ρ) where
  toJson unsigned := .obj [
    ("kind", toJson unsigned.kind),
    ("payload", toJson unsigned.payload),
    ("protocol", toJson unsigned.protocol),
    ("session_record_sha256", toJson unsigned.sessionRecordSha256)]

instance {ρ : Type} [ToJson ρ] : ToJson (JournalEnvelopeV2 ρ) where
  toJson envelope := .obj [
    ("hmac_sha256", toJson envelope.hmacSha256),
    ("kind", toJson envelope.kind),
    ("payload", toJson envelope.payload),
    ("protocol", toJson envelope.protocol),
    ("session_record_sha256", toJson envelope.sessionRecordSha256)]

section Envelope

variable {ρ : Type} [ToJson ρ]

def journalEnvelope (p : Primitives) (kind sessionRecordSha256 : String) (payload : ρ) (key : MacKey) :
    Result (JournalEnvelopeV2 ρ) := do
  validateIdentifier "journal kind" kind
  validateDigest "journal session" sessionRecordSha256
  let unsigned : JournalUnsignedV2 ρ := ⟨verifierJournalProtocolV2, kind, sessionRecordSha256, payload⟩
  let hmacSha256 ← key.tagDomainHex p verifierJournalMacDomainV2 (canonical unsigned)
  pure ⟨verifierJournalProtocolV2, kind, sessionRecordSha256, payload, hmacSha256⟩

def decodeJournal (p : Primitives) (envelope : JournalEnvelopeV2 ρ) (expectedKind sessionRecordSha256 : String)
    (key : MacKey) : Result ρ := do
  reject (envelope.protocol != verifierJournalProtocolV2 || envelope.kind != expectedKind ||
    envelope.sessionRecordSha256 != sessionRecordSha256) (invalid "journal envelope identity differs")
  validateDigest "journal HMAC" envelope.hmacSha256
  let unsigned : JournalUnsignedV2 ρ :=
    ⟨verifierJournalProtocolV2, envelope.kind, envelope.sessionRecordSha256, envelope.payload⟩
  key.verifyDomainHex p verifierJournalMacDomainV2 (canonical unsigned) envelope.hmacSha256
  pure envelope.payload

end Envelope

/-- A record file: the envelope that was written, or the prefix an interrupted write left. -/
inductive SlotFile (ρ : Type) where
  | whole (envelope : JournalEnvelopeV2 ρ)
  | torn (bytes : Bytes)

namespace SlotFile

variable {ρ : Type} [ToJson ρ]

/-- The bytes a file holds. -/
def bytes : SlotFile ρ → Bytes
  | .whole envelope => canonical envelope
  | .torn bytes => bytes

/-- `read_json`: a proper prefix of one JSON object is no JSON text. -/
def readJson (p : Primitives) (file : SlotFile ρ) (maximumBytes : ℕ) : Result (JournalEnvelopeV2 ρ) := do
  reject (file.bytes.length == 0 || maximumBytes < file.bytes.length) (invalid "journal object mode or size differs")
  match file with
  | .whole envelope => pure envelope
  | .torn bytes => .error (invalid (p.jsonFailure bytes))

/-- What a write that stops after `written` bytes leaves: the file is whole once all bytes are there. -/
def prefixOf (envelope : JournalEnvelopeV2 ρ) (written : ℕ) : SlotFile ρ :=
  if (canonical envelope).length ≤ written then .whole envelope else .torn ((canonical envelope).take written)

end SlotFile

/-- The readers' limit on one record file. -/
def slotFileLimit : ℕ := 16 * 1024 * 1024

/-- The readers' limit on the session file. -/
def sessionFileLimit : ℕ := 4 * 1024 * 1024

/-- The files of one journal root. -/
structure Disk where
  session : AuthenticatedSessionV2
  slots : (directory : Slot) → Table (SlotFile directory.Record)
  fragments : Table Bytes

namespace Disk

/-- Replace one record directory. -/
def setSlots (disk : Disk) (directory : Slot) (files : Table (SlotFile directory.Record)) : Disk :=
  { disk with slots := Function.update disk.slots directory files }

@[simp] theorem setSlots_slots_self (disk : Disk) (directory : Slot) (files : Table (SlotFile directory.Record)) :
    (disk.setSlots directory files).slots directory = files :=
  Function.update_self ..

theorem setSlots_slots_of_ne (disk : Disk) {directory other : Slot} (files : Table (SlotFile directory.Record))
    (different : other ≠ directory) : (disk.setSlots directory files).slots other = disk.slots other :=
  Function.update_of_ne different ..

end Disk

end Muser.Verifier
