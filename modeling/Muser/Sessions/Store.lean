import Muser.Sessions.Registry

/-! # The session store

A store is the registry, the files beside it, and the calls that are under way. What a call does while
it holds the lock, or to one file, is one step; between two of them any other call may take its steps.
A file is replaced as a whole: a write that fails has left the old file or the new one. Encryption and
serialization are taken at their word: a sealed file holds the bundle for whoever has the key.
-/

namespace Muser.Sessions

/-- What a file of bundle material holds. -/
inductive Content where
  | envelope (key : Hash) (nonce : Bytes) (bundle : SessionBundle)
  | other (text : Bytes)

/-- The bundle for a key. -/
def Content.decrypt (content : Content) (key : Hash) : Except String SessionBundle :=
  match content with
  | .envelope sealedBy _ bundle => if sealedBy = key then .ok bundle else .error "session bundle authentication failed"
  | .other _ => .error "invalid encrypted session envelope"

/-- What the store takes from elsewhere: the JSON library's answer on a replay plan, and the size and
the hash of a file. -/
structure Outside where
  replayPlan : String → Except String Unit
  size : Content → ℕ
  sha256 : Content → String

/-- Every replay plan is taken, and every file has one size and one hash. -/
def plainOutside : Outside where
  replayPlan _ := .ok ()
  size _ := 1
  sha256 _ := "c979f33e706862d09af662ba980930e58ee0801ee70c048f7ddbbf9589b18ee8"

structure TransferView where
  id : String
  sessionId : String
  direction : String
  mode : String
  tier : String
  destination : String
  status : String
  bytes : ℕ
  sha256 : String
  sourceDeleted : Bool
  lastError : Option String
deriving DecidableEq

/-- The model and layout that a bundle belongs to. -/
structure Identity where
  modelSha256 : String
  tokenizerSha256 : Hash
  templateSha256 : Hash
  layoutAbi : String
  dflashIdentitySha256 : Option String
  visionProjectorSha256 : Option String
  visionPreprocessingSha256 : Option String
deriving DecidableEq

def SessionBundle.identity (bundle : SessionBundle) : Identity :=
  ⟨bundle.modelSha256, bundle.tokenizerSha256, bundle.templateSha256, bundle.layoutAbi, bundle.dflashIdentitySha256,
    bundle.visionProjectorSha256, bundle.visionPreprocessingSha256⟩

/-- The journal of a transfer. -/
structure TransferRecord where
  view : TransferView
  transportKey : Hash
  identity : Identity
deriving DecidableEq

structure TransferExport where
  view : TransferView
  transportKey : Hash
  identity : Identity

structure Files where
  key : Option Hash
  bundles : Table Content
  journals : Table TransferRecord
  payloads : Table Content
  /-- Uploads on their way, each under a path of its own. -/
  staging : Table Content

/-- How a write of a file ends. -/
inductive Write where
  | done
  | unwritten
  | unsynced
deriving DecidableEq

/-- A file after a write, and whether the write is reported as done. -/
def Write.put (write : Write) (table : Table α) (name : String) (value : α) : Table α :=
  match write with
  | .unwritten => table
  | _ => table.insert name value

def Write.answer (write : Write) : Except String Unit := reject (write != .done) "the file was not written durably"

/-- A call between two of its steps. -/
inductive Pending where
  | writeBundle (id : String) (bundle : SessionBundle)
  | noteSaved (id : String)
  | installRestored (id : String) (bundle : SessionBundle)
  | removeSource (reconciles : Bool) (id transferId : String)
  | checkSource (id transferId : String)
  | readUpdate (reconciles : Bool) (transferId status : String) (error : Option String) (sourceDeleted : Bool)
  | writeUpdate (reconciles : Bool) (record : TransferRecord)
  | readCut (transferId sessionId destination mode tier : String)
  | writePayload (transferId sessionId destination mode tier : String) (bundle : SessionBundle)
  | hashPayload (transferId sessionId destination mode tier : String) (bundle : SessionBundle)
      (transportKey : Hash) (bytes : ℕ)
  | writeExport (record : TransferRecord)
  | checkSession (record : TransferRecord)
  | writeRegistered (record : TransferRecord)
  | checkPayload (record : TransferRecord)
  | writePrepared (record : TransferRecord)
  | movePayload (record : TransferRecord) (path : String)
  | writeAccepted (record : TransferRecord)
  | openPayload (record : TransferRecord) (expected : Identity)
  | installImported (record : TransferRecord) (bundle : SessionBundle)
  | writeCommitted (record : TransferRecord)

structure Store where
  registry : Registry
  files : Files
  pending : List Pending

/-- A store as a server makes it on an empty disk. -/
def Store.new : Store := ⟨∅, ⟨none, ∅, ∅, ∅, ∅⟩, []⟩

/-- What a call answers. -/
inductive Answer where
  | nothing
  | found (is : Bool)
  | begun (mutation : BeginMutation)
  | committed (revision : ℕ)
  | transfer (view : TransferView)
  | exported (material : TransferExport)
  | path (path : String) (bytes : ℕ)

/-- A call goes on, or it ends with an answer. -/
inductive Outcome where
  | goes (next : Pending)
  | ends (answer : Except String Answer)

/-- The operations of a store, with the identifiers they draw at random. -/
inductive Call where
  | create (id : String)
  | delete (id : String)
  | begin (id : String) (expectedRevision : ℕ) (idempotencyKey : String) (requestSha256 : Hash)
  | abort (id : String)
  | commit (id : String) (expectedRevision : ℕ) (idempotencyKey : String) (requestSha256 : Hash) (bundle : SessionBundle)
      (result : CachedGeneration)
  | save (id : String)
  | restore (id : String)
  | deleteAfterTransfer (id transferId : String)
  | reconcileOutgoingAfterAck (transferId : String)
  | beginExport (transferId sessionId destination mode tier : String)
  | registerOutgoing (transferId sessionId destination mode tier : String)
  | resumeExport (transferId : String)
  | updateTransfer (transferId status : String) (error : Option String) (sourceDeleted : Bool)
  | prepareImport (transferId sessionId source mode tier : String) (bytes : ℕ) (sha256 : String) (transportKey : Hash)
      (identity : Identity)
  | payloadPath (transferId random : String)
  | acceptPayload (transferId path : String)
  | commitImport (transferId : String) (expected : Identity)

/-- What chance decides in a step: how its write ends, and the key and the nonce it draws. -/
structure Chance where
  write : Write
  key : Hash
  nonce : Bytes

def maxTransferBytes : ℕ := 32 * 1024 * 1024 * 1024

def validateTransfer (transferId sessionId mode tier : String) : Except String Unit := do
  validateId transferId
  validateId sessionId
  reject (mode != "copy" && mode != "move") "migration mode must be 'copy' or 'move'"
  reject (tier != "decode" && tier != "storage") "migration tier must be 'decode' or 'storage'"

/-- What the journal of an outgoing transfer must say before its source is removed. -/
def deletable (record : TransferRecord) (id : String) : Bool :=
  record.view.direction == "outgoing" && record.view.sessionId == id && record.view.mode == "move" &&
    (record.view.status == "destination_committed" || record.view.status == "destination_committed_source_retained") &&
    !record.view.sourceDeleted

def deletionRefused : String := "source deletion requires a matching durable destination-committed move journal"

def outgoingView (transferId sessionId destination mode tier status : String) (bytes : ℕ) (sha256 : String) : TransferView :=
  ⟨transferId, sessionId, "outgoing", mode, tier, destination, status, bytes, sha256, false, none⟩

def identityInvalid (identity : Identity) : Bool :=
  !isSha256 identity.modelSha256 || identity.layoutAbi != "muse-kv-layout-v1" ||
    ([identity.dflashIdentitySha256, identity.visionProjectorSha256, identity.visionPreprocessingSha256].reduceOption.any
      fun digest => !isSha256 digest) ||
    identity.visionProjectorSha256.isSome != identity.visionPreprocessingSha256.isSome

/-- A part that a journal names must be the expected one. -/
def partDiffers (named expected : Option String) : Bool := named.any fun value => some value != expected

def identityMismatch (named expected : Identity) : Bool :=
  named.modelSha256 != expected.modelSha256 || named.tokenizerSha256 != expected.tokenizerSha256 ||
    named.templateSha256 != expected.templateSha256 || named.layoutAbi != expected.layoutAbi ||
    partDiffers named.dflashIdentitySha256 expected.dflashIdentitySha256 ||
    partDiffers named.visionProjectorSha256 expected.visionProjectorSha256 ||
    partDiffers named.visionPreprocessingSha256 expected.visionPreprocessingSha256

/-- The identity of a bundle, against what is expected and what was prepared. -/
def bundleMismatch (bundle prepared expected : Identity) : Bool :=
  bundle.modelSha256 != expected.modelSha256 || bundle.tokenizerSha256 != expected.tokenizerSha256 ||
    bundle.templateSha256 != expected.templateSha256 || bundle.layoutAbi != expected.layoutAbi ||
    bundle.dflashIdentitySha256 != prepared.dflashIdentitySha256 ||
    bundle.visionProjectorSha256 != prepared.visionProjectorSha256 ||
    bundle.visionPreprocessingSha256 != prepared.visionPreprocessingSha256

namespace Store

/-- Go on, or end with the failure. -/
def next (result : Except String Pending) : Outcome :=
  match result with
  | .error failure => .ends (.error failure)
  | .ok pending => .goes pending

/-- End with what an operation of the registry answers. -/
def settle (store : Store) (result : Except String (Answer × Registry)) : Outcome × Store :=
  match result with
  | .error failure => (.ends (.error failure), store)
  | .ok (answer, registry) => (.ends (.ok answer), { store with registry := registry })

def journal (store : Store) (transferId : String) : Except String TransferRecord := do
  validateId transferId
  match store.files.journals.lookup transferId with
  | none => .error "No such file or directory"
  | some record => .ok record

/-- Replace the journal of a transfer; the call ends, or goes on to where it says. -/
def writeJournal (store : Store) (chance : Chance) (record : TransferRecord) (answer : Answer) : Outcome × Store :=
  (.ends (chance.write.answer.map fun _ => answer),
    { store with files.journals := chance.write.put store.files.journals record.view.id record })

end Store

end Muser.Sessions
