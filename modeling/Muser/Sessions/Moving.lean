import Muser.Sessions.Imports

/-! # Moving a session to another server

A transfer between two stores: the source takes a cut of a session and seals it, what is sealed is sent,
the destination takes it in and says so, and the source removes the session. Between the cut and the
removal the session stays open to mutations, and the removal does not look at what was cut. So it is
for the clients of the source to leave the session as it was cut.
-/

namespace Muser.Sessions

open Relation

/-- A status that says that the destination has the session. -/
def acknowledges (status : String) : Bool :=
    status == "destination_committed" || status == "destination_committed_source_retained"

namespace Store

variable (outside : Outside)

/-- The bundle that a step puts in the place of a session's. -/
def puts (store : Store) (id : String) : Action → Option SessionBundle
  | .call (.commit other revision key hash bundle result) =>
    if other = id ∧ (validateBundle outside.replayPlan bundle id).isOk ∧
      (store.registry.commit id revision key hash bundle result).isOk
    then some { bundle with revision := revision + 1 } else none
  | .resume index chance =>
    match store.pending[index]? with
    | some (.installRestored other bundle) =>
      if other = id ∧ (store.registry.restore id bundle).isOk then some bundle else none
    | some (.installImported _ bundle) =>
      if bundle.sessionId = id ∧ (store.registry.admitsImport bundle).isOk ∧ chance.write = .done then some bundle else none
    | _ => none
  | _ => none

end Store

/-- A transfer, and the session that it moves or copies. -/
structure Transfer where
  id : String
  sessionId : String
  mode : String

/-- The two stores, and what has passed between them: the cuts that were taken at the source, the
payloads on their way, the answers of the destination, and the bundles that it has committed. -/
structure Moving where
  source : Store
  destination : Store
  cuts : List SessionBundle
  sent : List Content
  answers : List TransferView
  imports : List SessionBundle

inductive Event where
  | source (action : Store.Action)
  | acknowledge (status : String) (error : Option String) (sourceDeleted : Bool)
  | send
  | deliver (path : String) (index : ℕ)
  | destination (action : Store.Action)
  | ask

namespace Moving

def new : Moving := ⟨Store.new, Store.new, [], [], [], []⟩

variable (transfer : Transfer)

/-- The source does not take in the transfer, exports it as what it is, and learns from the destination
only that it is done. -/
def exporting : Store.Action → Bool
  | .call (.prepareImport id ..) => id != transfer.id
  | .call (.acceptPayload id _) => id != transfer.id
  | .call (.commitImport id _) => id != transfer.id
  | .call (.beginExport id sessionId _ mode _) =>
    id != transfer.id || (sessionId == transfer.sessionId && mode == transfer.mode)
  | .call (.registerOutgoing id sessionId _ mode _) =>
    id != transfer.id || (sessionId == transfer.sessionId && mode == transfer.mode)
  | .call (.updateTransfer id status _ _) => id != transfer.id || !acknowledges status
  | _ => true

/-- The destination does not export the transfer, nor writes its journal by hand; its uploads are deliveries. -/
def importing : Store.Action → Bool
  | .call (.beginExport id ..) => id != transfer.id
  | .call (.updateTransfer id ..) => id != transfer.id
  | .upload _ _ => false
  | _ => true

/-- The cut that is taken in a step of the source. -/
def cutBy (store : Store) : Store.Action → List SessionBundle
  | .resume index _ =>
    match store.pending[index]? with
    | some (.readCut id sessionId _ _ _) =>
      if id = transfer.id then (store.registry.committed sessionId).toOption.toList else []
    | _ => []
  | _ => []

/-- What is committed in a step of the destination. -/
def importedBy (store : Store) : Store.Action → List SessionBundle
  | .resume index chance =>
    match store.pending[index]? with
    | some (.installImported record bundle) =>
      if record.view.id = transfer.id ∧ (store.registry.admitsImport bundle).isOk ∧ chance.write = .done then
        [bundle] else []
    | _ => []
  | _ => []

def answered : Option Outcome → List TransferView
  | some (.ends (.ok (.transfer view))) => [view]
  | _ => []

def step (outside : Outside) (moving : Moving) : Event → Option Moving
  | .source action =>
    if exporting transfer action then
      (moving.source.step outside action).map fun both =>
        { moving with source := both.2, cuts := moving.cuts ++ cutBy transfer moving.source action }
    else none
  | .acknowledge status error sourceDeleted =>
    if moving.answers.any fun view => view.id == transfer.id && view.status == "committed" then
      (moving.source.step outside (.call (.updateTransfer transfer.id status error sourceDeleted))).map fun both =>
        { moving with source := both.2 }
    else none
  | .send => some { moving with sent := moving.sent ++ (moving.source.files.payloads.lookup transfer.id).toList }
  | .deliver path index =>
    (moving.sent[index]?).bind fun content =>
      (moving.destination.step outside (.upload path content)).map fun both => { moving with destination := both.2 }
  | .destination action =>
    if importing transfer action then
      (moving.destination.step outside action).map fun both =>
        { moving with
          destination := both.2
          answers := moving.answers ++ answered both.1
          imports := moving.imports ++ importedBy transfer moving.destination action }
    else none
  | .ask =>
    some { moving with
      answers := moving.answers ++ (moving.destination.files.journals.lookup transfer.id).toList.map TransferRecord.view }

/-- A step of the source that puts another bundle in the place of one that has been cut for a move. -/
def overwrites (outside : Outside) (moving : Moving) : Event → Prop
  | .source action => transfer.mode = "move" ∧
      ∃ bundle, moving.source.puts outside transfer.sessionId action = some bundle ∧ ∃ cut ∈ moving.cuts, bundle ≠ cut
  | _ => False

def Steps (outside : Outside) (moving after : Moving) : Prop :=
  ∃ event, ¬moving.overwrites transfer outside event ∧ moving.step transfer outside event = some after

/-- A session that is removed for a transfer is moved, and what was last committed of it is what the
destination has committed, or what the payload holds. -/
def Keeps (moving : Moving) : Prop := ∀ (index : ℕ) chance reconciles id record,
  moving.source.pending[index]? = some (Pending.removeSource reconciles id transfer.id) →
  moving.source.registry.lookup id = some record → (moving.source.removeSource chance id).1 = .ok true →
    transfer.mode = "move" ∧ ∀ bundle, record.bundle = some bundle →
      bundle ∈ moving.imports ∨ ∃ key nonce,
        moving.source.files.payloads.lookup transfer.id = some (.envelope key nonce bundle)

end Moving

/-- A payload that holds one of the cuts. -/
def Content.Cut (content : Content) (cuts : List SessionBundle) : Prop :=
  ∃ key nonce bundle, content = .envelope key nonce bundle ∧ bundle ∈ cuts

/-- A journal of the transfer at its source. -/
structure TransferRecord.Outgoing (record : TransferRecord) (transfer : Transfer) (acknowledged : Prop) : Prop where
  session : record.view.sessionId = transfer.sessionId
  mode : record.view.mode = transfer.mode
  status : acknowledges record.view.status = true → acknowledged

/-- A call under way at the source. -/
def Pending.Outgoing (transfer : Transfer) (cuts : List SessionBundle) (acknowledged : Prop) : Pending → Prop
  | .checkSource id other => other = transfer.id → acknowledged ∧ id = transfer.sessionId ∧ transfer.mode = "move"
  | .removeSource _ id other => other = transfer.id → acknowledged ∧ id = transfer.sessionId ∧ transfer.mode = "move"
  | .readUpdate _ other status _ _ => other = transfer.id → acknowledges status = true → acknowledged
  | .readCut other id _ mode _ => other = transfer.id → id = transfer.sessionId ∧ mode = transfer.mode
  | .writePayload other id _ mode _ bundle =>
    other = transfer.id → (id = transfer.sessionId ∧ mode = transfer.mode) ∧ bundle ∈ cuts
  | .hashPayload other id _ mode _ _ _ _ => other = transfer.id → id = transfer.sessionId ∧ mode = transfer.mode
  | .writeUpdate _ record => record.view.id = transfer.id → record.Outgoing transfer acknowledged
  | .writeExport record => record.view.id = transfer.id → record.Outgoing transfer acknowledged
  | .checkSession record => record.view.id = transfer.id → record.Outgoing transfer acknowledged
  | .writeRegistered record => record.view.id = transfer.id → record.Outgoing transfer acknowledged
  | .movePayload record _ => record.view.id ≠ transfer.id
  | .writeAccepted record => record.view.id ≠ transfer.id
  | .writePrepared record => record.view.id ≠ transfer.id
  | .openPayload record _ => record.view.id ≠ transfer.id
  | .installImported record _ => record.view.id ≠ transfer.id
  | .writeCommitted record => record.view.id ≠ transfer.id
  | _ => True

/-- A call under way at the destination. -/
def Pending.Incoming (transfer : Transfer) (cuts : List SessionBundle) (imported : Prop) : Pending → Prop
  | .readUpdate _ other status _ _ => other = transfer.id → status = "committed" → imported
  | .readCut other _ _ _ _ => other ≠ transfer.id
  | .writePayload other _ _ _ _ _ => other ≠ transfer.id
  | .hashPayload other _ _ _ _ _ _ _ => other ≠ transfer.id
  | .installImported record bundle => record.view.id = transfer.id → bundle ∈ cuts
  | .writeUpdate _ record => record.view.id = transfer.id → record.view.status = "committed" → imported
  | .writeExport record => record.view.id = transfer.id → record.view.status = "committed" → imported
  | .checkSession record => record.view.id = transfer.id → record.view.status = "committed" → imported
  | .writeRegistered record => record.view.id = transfer.id → record.view.status = "committed" → imported
  | .writePrepared record => record.view.id = transfer.id → record.view.status = "committed" → imported
  | .writeAccepted record => record.view.id = transfer.id → record.view.status = "committed" → imported
  | .writeCommitted record => record.view.id = transfer.id → record.view.status = "committed" → imported
  | _ => True

/-- The source between two steps. -/
structure Store.Exports (store : Store) (transfer : Transfer) (cuts : List SessionBundle) (acknowledged : Prop) : Prop where
  named : ∀ name record, store.files.journals.lookup name = some record → record.view.id = name
  journal : ∀ record, store.files.journals.lookup transfer.id = some record → record.Outgoing transfer acknowledged
  payload : ∀ content, store.files.payloads.lookup transfer.id = some content → content.Cut cuts
  calls : ∀ pending ∈ store.pending, pending.Outgoing transfer cuts acknowledged

/-- The destination between two steps. -/
structure Store.Imports (store : Store) (transfer : Transfer) (cuts : List SessionBundle) (imported : Prop) : Prop where
  named : ∀ name record, store.files.journals.lookup name = some record → record.view.id = name
  journal : ∀ record, store.files.journals.lookup transfer.id = some record → record.view.status = "committed" → imported
  staging : ∀ path content, store.files.staging.lookup path = some content → content.Cut cuts
  payload : ∀ content, store.files.payloads.lookup transfer.id = some content → content.Cut cuts
  calls : ∀ pending ∈ store.pending, pending.Incoming transfer cuts imported

/-- Both between two steps, and what passes between them. -/
structure Moving.Safe (transfer : Transfer) (moving : Moving) : Prop where
  exports : moving.source.Exports transfer moving.cuts (moving.imports ≠ [])
  imports : moving.destination.Imports transfer moving.cuts (moving.imports ≠ [])
  sent : ∀ content ∈ moving.sent, content.Cut moving.cuts
  answers : ∀ view ∈ moving.answers, view.id = transfer.id → view.status = "committed" → moving.imports ≠ []
  imported : ∀ bundle ∈ moving.imports, bundle ∈ moving.cuts
  current : transfer.mode = "move" → ∀ cut ∈ moving.cuts, ∀ record bundle,
    moving.source.registry.lookup transfer.sessionId = some record → record.bundle = some bundle → bundle = cut

end Muser.Sessions
