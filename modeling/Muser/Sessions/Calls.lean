import Muser.Sessions.Store

/-! # The calls of a store, step by step

How a call starts, how it goes on, and what a store does when one of the calls under way takes its next
step. A crash leaves the files only.
-/

namespace Muser.Sessions

namespace Store

/-- The first step of an export: an identifier that is bound to something else, or has material, is refused. -/
def checkExport (store : Store) (transferId sessionId destination mode tier : String) : Except String Pending := do
  validateTransfer transferId sessionId mode tier
  match store.files.journals.lookup transferId with
  | none => .ok (.readCut transferId sessionId destination mode tier)
  | some existing =>
    reject (existing.view.direction != "outgoing" || existing.view.sessionId != sessionId ||
        existing.view.destination != destination || existing.view.mode != mode || existing.view.tier != tier)
      "transfer ID is already bound to a different migration"
    reject (existing.view.status != "starting" || existing.view.bytes != 0 || !existing.view.sha256.isEmpty)
      "transfer already has durable material; resume it instead of replacing it"
    .ok (.readCut transferId sessionId destination mode tier)

def checkRegister (store : Store) (transferId sessionId destination mode tier : String) : Except String Pending := do
  validateTransfer transferId sessionId mode tier
  reject (store.files.journals.lookup transferId).isSome "transfer ID is already registered"
  .ok (.checkSession ⟨outgoingView transferId sessionId destination mode tier "starting" 0 "", [],
    ⟨"", [], [], "", none, none, none⟩⟩)

def checkResume (store : Store) (transferId : String) : Except String Pending := do
  let record ← store.journal transferId
  reject (record.view.direction != "outgoing" || record.view.bytes == 0 || !isSha256 record.view.sha256)
    "outgoing transfer has no resumable prepared payload"
  .ok (.checkPayload record)

def checkReconcile (store : Store) (transferId : String) : Outcome :=
  match store.journal transferId with
  | .error failure => .ends (.error failure)
  | .ok record =>
    if record.view.direction != "outgoing" then .ends (.error "cannot reconcile a non-outgoing transfer")
    else if record.view.status == "completed" then .ends (.ok (.found true))
    else if record.view.status != "destination_committed" && record.view.status !=
      "destination_committed_source_retained" then
      .ends (.ok (.found false))
    else if record.view.mode == "move" then .goes (.checkSource record.view.sessionId transferId)
    else if record.view.mode == "copy" then .goes (.readUpdate true transferId "completed" none false)
    else .ends (.error "outgoing transfer journal has an invalid migration mode")

/-- Prepare an import, or find it prepared already. -/
def checkPrepare (store : Store) (record : TransferRecord) : Outcome :=
  match do
      validateTransfer record.view.id record.view.sessionId record.view.mode "decode"
      reject (record.view.tier != "decode") "decode-node transfer tier must be 'decode'"
      reject (record.view.bytes == 0 || maxTransferBytes < record.view.bytes || !isSha256 record.view.sha256)
        "transfer payload size or SHA-256 is invalid"
      reject (identityInvalid record.identity) "transfer model or layout identity is invalid" with
  | .error failure => .ends (.error failure)
  | .ok () =>
    match store.files.journals.lookup record.view.id with
    | none => .goes (.writePrepared record)
    | some existing =>
      if { existing with
            view := { existing.view with status := "prepared", sourceDeleted := false, lastError := none } } = record then
        .ends (.ok (.transfer existing.view))
      else .ends (.error "transfer ID is already bound to different material")

def checkCommit (store : Store) (transferId : String) (expected : Identity) : Outcome :=
  match do
      let record ← store.journal transferId
      reject (identityMismatch record.identity expected) "incoming session model/template/layout identity mismatch"
      .ok record with
  | .error failure => .ends (.error failure)
  | .ok record =>
    if record.view.status = "committed" then .ends (.ok (.transfer record.view))
    else if record.view.status = "uploaded" then .goes (.openPayload record expected)
    else .ends (.error "transfer payload has not been durably uploaded")

variable (outside : Outside)

/-- What a call does up to its first pause. -/
def start (store : Store) : Call → Outcome × Store
  | .create id => store.settle do
    validateId id
    let registry ← store.registry.create id
    .ok (.nothing, registry)
  | .delete id => store.settle do
    validateId id
    let (found, registry) ← store.registry.delete id
    .ok (.found found, registry)
  | .begin id expectedRevision idempotencyKey requestSha256 => store.settle do
    validateId id
    validateIdempotencyKey idempotencyKey
    let (mutation, registry) ← store.registry.begin id expectedRevision idempotencyKey requestSha256
    .ok (.begun mutation, registry)
  | .abort id => store.settle (.ok (.nothing, store.registry.abort id))
  | .commit id expectedRevision idempotencyKey requestSha256 bundle result => store.settle do
    validateBundle outside.replayPlan bundle id
    let (revision, registry) ← store.registry.commit id expectedRevision idempotencyKey requestSha256 bundle result
    .ok (.committed revision, registry)
  | .save id => (next do
    validateId id
    let bundle ← store.registry.committed id
    .ok (.writeBundle id bundle), store)
  | .restore id => (next do
    validateId id
    match store.files.bundles.lookup id, store.files.key with
    | some content, some key =>
      let bundle ← content.decrypt key
      validateBundle outside.replayPlan bundle id
      .ok (.installRestored id bundle)
    | none, _ => .error "No such file or directory"
    | some _, none => .error "session bundle authentication failed", store)
  | .deleteAfterTransfer id transferId => (next do
    validateId id
    let record ← store.journal transferId
    reject (!deletable record id) deletionRefused
    .ok (.removeSource false id transferId), store)
  | .reconcileOutgoingAfterAck transferId => (store.checkReconcile transferId, store)
  | .beginExport transferId sessionId destination mode tier =>
    (next (store.checkExport transferId sessionId destination mode tier), store)
  | .registerOutgoing transferId sessionId destination mode tier =>
    (next (store.checkRegister transferId sessionId destination mode tier), store)
  | .resumeExport transferId => (next (store.checkResume transferId), store)
  | .updateTransfer transferId status error sourceDeleted =>
    (.goes (.readUpdate false transferId status error sourceDeleted), store)
  | .prepareImport transferId sessionId source mode tier bytes sha256 transportKey identity =>
    (store.checkPrepare ⟨⟨transferId, sessionId, "incoming", mode, tier, source, "prepared", bytes, sha256, false, none⟩,
      transportKey, identity⟩, store)
  | .payloadPath transferId random =>
    (.ends do
      let record ← store.journal transferId
      reject (record.view.direction != "incoming" || record.view.status == "committed")
        "transfer is not awaiting an incoming payload"
      .ok (.path s!".{transferId}.incoming-{random}" record.view.bytes), store)
  | .acceptPayload transferId path => (next do
    let record ← store.journal transferId
    .ok (.movePayload record path), store)
  | .commitImport transferId expected => (store.checkCommit transferId expected, store)

/-- The result of the deletion in a reconciliation decides what the journal is to say. -/
def reconciled (reconciles : Bool) (transferId : String) (result : Except String Bool) : Outcome :=
  match reconciles, result with
  | false, result => .ends (result.map .found)
  | true, .ok _ => .goes (.readUpdate true transferId "completed" none true)
  | true, .error failure => .goes (.readUpdate true transferId "destination_committed_source_retained" (some failure) false)

/-- Remove a session's file and then its record, under the lock. -/
def removeSource (store : Store) (chance : Chance) (id : String) : Except String Bool × Store :=
  match store.registry.lookup id with
  | none => (.ok false, store)
  | some record =>
    if record.busy then (.error "session is busy", store)
    else
      let erased : Files := { store.files with bundles := store.files.bundles.erase id }
      let gone : Store := { store with registry := store.registry.erase id, files := erased }
      if (store.files.bundles.lookup id).isNone then (.ok true, gone)
      else match chance.write with
        | .unwritten => (.error "remove session bundle", store)
        | .unsynced => (.error "sync session directory", { store with files := erased })
        | .done => (.ok true, gone)

/-- Seal a bundle under the key of this store, which is drawn at its first use. -/
def sealBundle (store : Store) (chance : Chance) (id : String) (bundle : SessionBundle) : Store :=
  let key := store.files.key.getD chance.key
  { store with files := { store.files with
      key := some key
      bundles := chance.write.put store.files.bundles id (.envelope key chance.nonce bundle) } }

/-- The journal of an export whose payload is written. -/
def exportRecord (transferId sessionId destination mode tier : String) (bundle : SessionBundle) (transportKey : Hash)
    (bytes : ℕ) (sha256 : String) : TransferRecord :=
  ⟨outgoingView transferId sessionId destination mode tier "prepared" bytes sha256, transportKey, bundle.identity⟩

/-- A file as the journal describes it. -/
def described (outside : Outside) (record : TransferRecord) (content : Content) : Bool :=
  outside.size content == record.view.bytes && outside.sha256 content == record.view.sha256

/-- The next step of a call that is under way. -/
def resume (store : Store) (chance : Chance) : Pending → Outcome × Store
  | .writeBundle id bundle => (next (chance.write.answer.map fun _ => .noteSaved id), store.sealBundle chance id bundle)
  | .noteSaved id => store.settle (.ok (.nothing, store.registry.markSaved id))
  | .installRestored id bundle => store.settle ((store.registry.restore id bundle).map fun registry => (.nothing, registry))
  | .checkSource id transferId =>
    match store.journal transferId with
    | .error failure => (reconciled true transferId (.error failure), store)
    | .ok record =>
      if deletable record id then (.goes (.removeSource true id transferId), store)
      else (reconciled true transferId (.error deletionRefused), store)
  | .removeSource reconciles id transferId =>
    let (result, after) := store.removeSource chance id
    (reconciled reconciles transferId result, after)
  | .readUpdate reconciles transferId status error sourceDeleted => (next do
    let record ← store.journal transferId
    .ok (.writeUpdate reconciles
      { record with
        view := { record.view with status := status, lastError := error, sourceDeleted := sourceDeleted } }), store)
  | .writeUpdate reconciles record =>
    store.writeJournal chance record (if reconciles then .found true else .transfer record.view)
  | .readCut transferId sessionId destination mode tier => (next do
    let bundle ← store.registry.committed sessionId
    .ok (.writePayload transferId sessionId destination mode tier bundle), store)
  | .writePayload transferId sessionId destination mode tier bundle =>
    let content := Content.envelope chance.key chance.nonce bundle
    (next (chance.write.answer.map fun _ =>
      .hashPayload transferId sessionId destination mode tier bundle chance.key (outside.size content)),
      { store with files := { store.files with payloads := chance.write.put store.files.payloads transferId content } })
  | .hashPayload transferId sessionId destination mode tier bundle transportKey bytes => (next (
    match store.files.payloads.lookup transferId with
    | none => .error "No such file or directory"
    | some content => .ok (.writeExport
      (exportRecord transferId sessionId destination mode tier bundle transportKey bytes (outside.sha256 content)))), store)
  | .writeExport record => store.writeJournal chance record (.exported ⟨record.view, record.transportKey, record.identity⟩)
  | .checkSession record =>
    match store.registry.lookup record.view.sessionId with
    | none => (.ends (.error "session does not exist"), store)
    | some session =>
      if session.busy || session.bundle.isNone then (.ends (.error "session is busy or has no committed state"), store)
      else (.goes (.writeRegistered record), store)
  | .writeRegistered record => store.writeJournal chance record (.transfer record.view)
  | .checkPayload record =>
    match store.files.payloads.lookup record.view.id with
    | none => (.ends (.error "No such file or directory"), store)
    | some content =>
      if described outside record content then
        (.ends (.ok (.exported ⟨record.view, record.transportKey, record.identity⟩)), store)
      else (.ends (.error "resumable transfer payload no longer matches its journal"), store)
  | .writePrepared record => store.writeJournal chance record (.transfer record.view)
  | .movePayload record path =>
    match store.files.staging.lookup path with
    | none => (.ends (.error "No such file or directory"), store)
    | some content =>
      if described outside record content then
        let moved : Files := { store.files with
          staging := store.files.staging.erase path
          payloads := store.files.payloads.insert record.view.id content }
        let accepted : TransferRecord := { record with view := { record.view with status := "uploaded", lastError := none } }
        match chance.write with
        | .unwritten => (.ends (.error "rename transfer payload"), store)
        | .unsynced => (.ends (.error "sync transfer directory"), { store with files := moved })
        | .done => (.goes (.writeAccepted accepted), { store with files := moved })
      else (.ends (.error "incoming transfer payload size or SHA-256 mismatch"), store)
  | .writeAccepted record => store.writeJournal chance record (.transfer record.view)
  | .openPayload record expected => (next (
    match store.files.payloads.lookup record.view.id with
    | none => .error "No such file or directory"
    | some content => do
      let bundle ← content.decrypt record.transportKey
      validateBundle outside.replayPlan bundle record.view.sessionId
      reject (bundleMismatch bundle.identity record.identity expected)
        "decrypted session identity differs from transfer preparation"
      .ok (.installImported record bundle)), store)
  | .installImported record bundle =>
    match store.registry.admitsImport bundle with
    | .error failure => (.ends (.error failure), store)
    | .ok () =>
      let written := store.sealBundle chance bundle.sessionId bundle
      match chance.write with
      | .done =>
        (.goes (.writeCommitted { record with view := { record.view with status := "committed", lastError := none } }),
          { written with registry := store.registry.insert bundle.sessionId (.ofBundle bundle) })
      | _ => (.ends (.error "the file was not written durably"), written)
  | .writeCommitted record => store.writeJournal chance record (.transfer record.view)

/-- A call that meets an error of its files ends there; a reconciliation notes it in the journal. -/
def interrupt (failure : String) : Pending → Outcome
  | .checkSource _ transferId => reconciled true transferId (.error failure)
  | .removeSource reconciles _ transferId => reconciled reconciles transferId (.error failure)
  | _ => .ends (.error failure)

/-- What happens at a store. -/
inductive Action where
  | call (call : Call)
  | resume (index : ℕ) (chance : Chance)
  | interrupt (index : ℕ) (failure : String)
  | upload (path : String) (content : Content)
  | crash

/-- A call that goes on stays among those under way. -/
def keep (outcome : Outcome) (store : Store) : Store :=
  match outcome with
  | .goes pending => { store with pending := store.pending ++ [pending] }
  | .ends _ => store

/-- A step, and the outcome for the call that took it. -/
def step (store : Store) : Action → Option (Option Outcome × Store)
  | .call call =>
    let (outcome, after) := store.start outside call
    some (some outcome, keep outcome after)
  | .resume index chance =>
    (store.pending[index]?).map fun pending =>
      let (outcome, after) := { store with pending := store.pending.eraseIdx index }.resume outside chance pending
      (some outcome, keep outcome after)
  | .interrupt index failure =>
    (store.pending[index]?).map fun pending =>
      let outcome := interrupt failure pending
      (some outcome, keep outcome { store with pending := store.pending.eraseIdx index })
  | .upload path content =>
    some (none, { store with files := { store.files with staging := store.files.staging.insert path content } })
  | .crash => some (none, { store with registry := ∅, pending := [] })

end Store

end Muser.Sessions
