import Muser.Sessions.Effects

/-! # How calls go on

Which step follows which, with what is known when it is reached, and what a step does to the journals,
the payloads and the uploads. Everything that is later said of transfers goes through these lemmas.
-/

namespace Muser.Sessions

/-- The step after the first of a call. -/
inductive Call.Opens (outside : Outside) (store : Store) : Call → Pending → Prop
  | save {id : String} {bundle : SessionBundle} (committed : store.registry.committed id = .ok bundle) :
      Opens outside store (.save id) (.writeBundle id bundle)
  | restore {id : String} {bundle : SessionBundle} (valid : validateBundle outside.replayPlan bundle id = .ok ()) :
      Opens outside store (.restore id) (.installRestored id bundle)
  | delete {id transferId : String} {record : TransferRecord} (read : store.journal transferId = .ok record)
      (deletable : deletable record id = true) : Opens outside store (.deleteAfterTransfer id transferId)
        (.removeSource false id transferId)
  | reconcileMove {transferId : String} {record : TransferRecord} (read : store.journal transferId = .ok record)
      (outgoing : record.view.direction = "outgoing")
      (acknowledged : record.view.status = "destination_committed" ∨
        record.view.status = "destination_committed_source_retained")
      (moves : record.view.mode = "move") :
      Opens outside store (.reconcileOutgoingAfterAck transferId) (.checkSource record.view.sessionId transferId)
  | reconcileCopy {transferId : String} {record : TransferRecord} (read : store.journal transferId = .ok record)
      (outgoing : record.view.direction = "outgoing")
      (acknowledged : record.view.status = "destination_committed" ∨
        record.view.status = "destination_committed_source_retained")
      (copies : record.view.mode = "copy") :
      Opens outside store (.reconcileOutgoingAfterAck transferId) (.readUpdate true transferId "completed" none false)
  | exports {transferId sessionId destination mode tier : String}
      (unbound : ∀ record, store.files.journals.lookup transferId = some record → record.view.status = "starting" ∧
        record.view.mode = mode ∧ record.view.sessionId = sessionId) :
      Opens outside store (.beginExport transferId sessionId destination mode tier)
        (.readCut transferId sessionId destination mode tier)
  | registers {transferId sessionId destination mode tier : String}
      (unbound : store.files.journals.lookup transferId = none) :
      Opens outside store (.registerOutgoing transferId sessionId destination mode tier)
        (.checkSession ⟨outgoingView transferId sessionId destination mode tier "starting" 0 "", [],
          ⟨"", [], [], "", none, none, none⟩⟩)
  | resumes {transferId : String} {record : TransferRecord} (read : store.journal transferId = .ok record) :
      Opens outside store (.resumeExport transferId) (.checkPayload record)
  | updates {transferId status : String} {error : Option String} {sourceDeleted : Bool} :
      Opens outside store (.updateTransfer transferId status error sourceDeleted)
        (.readUpdate false transferId status error sourceDeleted)
  | prepares {transferId sessionId source mode tier sha256 : String} {bytes : ℕ} {transportKey : Hash} {identity : Identity}
      (unbound : store.files.journals.lookup transferId = none) :
      Opens outside store (.prepareImport transferId sessionId source mode tier bytes sha256 transportKey identity)
        (.writePrepared ⟨⟨transferId, sessionId, "incoming", mode, tier, source, "prepared", bytes, sha256, false, none⟩,
          transportKey, identity⟩)
  | accepts {transferId path : String} {record : TransferRecord} (read : store.journal transferId = .ok record) :
      Opens outside store (.acceptPayload transferId path) (.movePayload record path)
  | commits {transferId : String} {expected : Identity} {record : TransferRecord}
      (read : store.journal transferId = .ok record)
      (uploaded : record.view.status = "uploaded") :
      Opens outside store (.commitImport transferId expected) (.openPayload record expected)

/-- The step after a later one. -/
inductive Pending.Leads (outside : Outside) (store : Store) : Pending → Pending → Prop
  | saved {id : String} {bundle : SessionBundle} : Leads outside store (.writeBundle id bundle) (.noteSaved id)
  | source {id transferId : String} {record : TransferRecord} (read : store.journal transferId = .ok record)
      (deletable : deletable record id = true) : Leads outside store (.checkSource id transferId)
        (.removeSource true id transferId)
  | unchecked {id transferId failure : String} : Leads outside store (.checkSource id transferId)
      (.readUpdate true transferId "destination_committed_source_retained" (some failure) false)
  | removed {id transferId : String} : Leads outside store (.removeSource true id transferId)
      (.readUpdate true transferId "completed" none true)
  | retained {id transferId failure : String} : Leads outside store (.removeSource true id transferId)
      (.readUpdate true transferId "destination_committed_source_retained" (some failure) false)
  | updates {reconciles : Bool} {transferId status : String} {error : Option String} {sourceDeleted : Bool}
      {record : TransferRecord}
      (read : store.journal transferId = .ok record) :
        Leads outside store (.readUpdate reconciles transferId status error sourceDeleted)
        (.writeUpdate reconciles
          { record with view := { record.view with status := status, lastError := error, sourceDeleted := sourceDeleted } })
  | cut {transferId sessionId destination mode tier : String} {bundle : SessionBundle}
      (committed : store.registry.committed sessionId = .ok bundle) :
      Leads outside store (.readCut transferId sessionId destination mode tier)
        (.writePayload transferId sessionId destination mode tier bundle)
  | sealed {transferId sessionId destination mode tier : String} {bundle : SessionBundle} {key : Hash} {bytes : ℕ} :
      Leads outside store (.writePayload transferId sessionId destination mode tier bundle)
        (.hashPayload transferId sessionId destination mode tier bundle key bytes)
  | hashed {transferId sessionId destination mode tier : String} {bundle : SessionBundle} {key : Hash} {bytes : ℕ}
      {sha256 : String} :
      Leads outside store (.hashPayload transferId sessionId destination mode tier bundle key bytes)
        (.writeExport (Store.exportRecord transferId sessionId destination mode tier bundle key bytes sha256))
  | registered {record : TransferRecord} : Leads outside store (.checkSession record) (.writeRegistered record)
  | accepted {record : TransferRecord} {path : String} : Leads outside store (.movePayload record path)
      (.writeAccepted { record with view := { record.view with status := "uploaded", lastError := none } })
  | opened {record : TransferRecord} {expected : Identity} {content : Content} {bundle : SessionBundle}
      (found : store.files.payloads.lookup record.view.id = some content)
        (opens : content.decrypt record.transportKey = .ok bundle) :
      Leads outside store (.openPayload record expected) (.installImported record bundle)
  | installed {record : TransferRecord} {bundle : SessionBundle} (admits : store.registry.admitsImport bundle = .ok ()) :
      Leads outside store (.installImported record bundle)
      (.writeCommitted { record with view := { record.view with status := "committed", lastError := none } })

/-- The journal that a step writes. -/
def Pending.journaled : Pending → Option TransferRecord
  | .writeUpdate _ record => some record
  | .writeExport record => some record
  | .writeRegistered record => some record
  | .writePrepared record => some record
  | .writeAccepted record => some record
  | .writeCommitted record => some record
  | _ => none

namespace Store

variable {outside : Outside} {store after : Store} {next : Pending}

variable {outcome : Outcome} {transferId : String} {result : Except String Bool} {reconciles : Bool}
  {record : TransferRecord} {others : List Pending}

theorem settle_ends {result : Except String (Answer × Registry)} (is : store.settle result = (outcome, after)) :
    ∃ answer, outcome = .ends answer := by
  rcases settle_cases is with ⟨_, -, rfl, -⟩ | ⟨_, _, -, rfl, -⟩
  · exact ⟨_, rfl⟩
  · exact ⟨_, rfl⟩

theorem settle_files (result : Except String (Answer × Registry)) : (store.settle result).2.files = store.files := by
  cases result <;> rfl

theorem settle_pending (result : Except String (Answer × Registry)) : (store.settle result).2.pending = store.pending := by
  cases result <;> rfl

variable {pending : Pending} {chance : Chance}

theorem next_goes {result : Except String Pending} : Store.next result = .goes pending ↔ result = .ok pending := by
  cases result <;> simp [Store.next]

theorem checkReconcile_goes (is : store.checkReconcile transferId = .goes next) :
    (Call.reconcileOutgoingAfterAck transferId).Opens outside store next := by
  rw [checkReconcile] at is
  split at is
  · cases is
  · next record read =>
    split at is
    · cases is
    · next outgoing =>
      split at is
      · cases is
      · split at is
        · cases is
        · next acknowledged =>
          have direction : record.view.direction = "outgoing" := by simpa using outgoing
          have status : record.view.status = "destination_committed" ∨
              record.view.status = "destination_committed_source_retained" := by
            simp only [Bool.and_eq_true, bne_iff_ne, not_and, not_not] at acknowledged
            exact or_iff_not_imp_left.mpr acknowledged
          split at is
          · next moves =>
            cases is
            exact .reconcileMove read direction status (eq_of_beq moves)
          · split at is
            · next copies =>
              cases is
              exact .reconcileCopy read direction status (eq_of_beq copies)
            · cases is

theorem checkExport_ok {transferId sessionId destination mode tier : String}
    (is : store.checkExport transferId sessionId destination mode tier = .ok next) :
    (Call.beginExport transferId sessionId destination mode tier).Opens outside store next := by
  simp only [checkExport, bind_eq_ok_iff] at is
  obtain ⟨⟨⟩, -, is⟩ := is
  split at is
  · next unbound =>
    cases is
    exact .exports fun record found => by cases unbound.symm.trans found
  · next existing found =>
    simp only [bind_eq_ok_iff, reject_eq_ok_iff, Bool.or_eq_false_iff, bne_eq_false_iff_eq] at is
    obtain ⟨⟨⟩, ⟨⟨⟨⟨-, session⟩, -⟩, mode'⟩, -⟩, ⟨⟩, ⟨⟨starting, -⟩, -⟩, is⟩ := is
    cases is
    refine .exports fun record found' => ?_
    cases found.symm.trans found'
    exact ⟨starting, mode', session⟩

/-- How a call goes on. -/
theorem start_goes {call : Call} (is : store.start outside call = (.goes next, after)) : call.Opens outside store next := by
  cases call with
  | abort id => cases is
  | create id | delete id | begin id revision key hash | commit id revision key hash bundle result =>
    obtain ⟨_, same⟩ := settle_ends is
    cases same
  | save id =>
    have goes := next_goes.mp (congrArg Prod.fst is)
    simp only [bind_eq_ok_iff] at goes
    obtain ⟨-, -, bundle, committed, goes⟩ := goes
    cases goes
    exact .save committed
  | restore id =>
    have goes := next_goes.mp (congrArg Prod.fst is)
    simp only [bind_eq_ok_iff] at goes
    obtain ⟨-, -, goes⟩ := goes
    split at goes
    · simp only [bind_eq_ok_iff] at goes
      obtain ⟨bundle, -, ⟨⟩, valid, goes⟩ := goes
      cases goes
      exact .restore valid
    · cases goes
    · cases goes
  | deleteAfterTransfer id transferId =>
    have goes := next_goes.mp (congrArg Prod.fst is)
    simp only [bind_eq_ok_iff, reject_eq_ok_iff] at goes
    obtain ⟨⟨⟩, -, record, read, ⟨⟩, deletable, goes⟩ := goes
    cases goes
    exact .delete read (by simpa using deletable)
  | reconcileOutgoingAfterAck transferId => exact checkReconcile_goes (congrArg Prod.fst is)
  | beginExport transferId sessionId destination mode tier => exact checkExport_ok (next_goes.mp (congrArg Prod.fst is))
  | registerOutgoing transferId sessionId destination mode tier =>
    have goes := next_goes.mp (congrArg Prod.fst is)
    simp only [checkRegister, bind_eq_ok_iff, reject_eq_ok_iff] at goes
    obtain ⟨⟨⟩, -, ⟨⟩, unbound, goes⟩ := goes
    cases goes
    exact .registers (Option.isSome_eq_false_iff.mp unbound |> Option.isNone_iff_eq_none.mp)
  | resumeExport transferId =>
    have goes := next_goes.mp (congrArg Prod.fst is)
    simp only [checkResume, bind_eq_ok_iff] at goes
    obtain ⟨record, read, -, -, goes⟩ := goes
    cases goes
    exact .resumes read
  | updateTransfer transferId status error sourceDeleted =>
    cases is
    exact .updates
  | prepareImport transferId sessionId source mode tier bytes sha256 transportKey identity =>
    have goes := congrArg Prod.fst is
    rw [start, checkPrepare] at goes
    split at goes
    · cases goes
    · split at goes
      · next unbound =>
        cases goes
        exact .prepares unbound
      · split at goes
        · cases goes
        · cases goes
  | payloadPath transferId random => cases is
  | acceptPayload transferId path =>
    have goes := next_goes.mp (congrArg Prod.fst is)
    simp only [bind_eq_ok_iff] at goes
    obtain ⟨record, read, goes⟩ := goes
    cases goes
    exact .accepts read
  | commitImport transferId expected =>
    have goes := congrArg Prod.fst is
    rw [start, checkCommit] at goes
    split at goes
    · cases goes
    · next record read =>
      simp only [bind_eq_ok_iff] at read
      obtain ⟨record', read, ⟨⟩, -, same⟩ := read
      cases same
      split at goes
      · cases goes
      · split at goes
        · next uploaded =>
          cases goes
          exact .commits read uploaded
        · cases goes

theorem reconciled_goes (is : reconciled reconciles transferId result = .goes next) : reconciles = true ∧
      (next = .readUpdate true transferId "completed" none true ∨
        ∃ failure, next = .readUpdate true transferId "destination_committed_source_retained" (some failure) false) := by
  rw [reconciled.eq_def] at is
  split at is
  · cases is
  · cases is
    exact ⟨rfl, .inl rfl⟩
  · cases is
    exact ⟨rfl, .inr ⟨_, rfl⟩⟩

theorem reconciled_leads {id transferId : String} (is : reconciled reconciles transferId result = .goes next) :
    (Pending.removeSource reconciles id transferId).Leads outside store next := by
  obtain ⟨rfl, rfl | ⟨failure, rfl⟩⟩ := reconciled_goes is
  · exact .removed
  · exact .retained

/-- How a call under way goes on. -/
theorem resume_goes (is : store.resume outside chance pending = (.goes next, after)) :
    pending.Leads outside store next := by
  cases pending with
  | writeBundle id bundle =>
    have goes := next_goes.mp (congrArg Prod.fst is)
    cases answer : chance.write.answer with
    | error failure =>
      rw [answer] at goes
      cases goes
    | ok =>
      rw [answer] at goes
      cases goes
      exact .saved
  | installRestored id bundle =>
    obtain ⟨_, same⟩ := settle_ends is
    cases same
  | removeSource reconciles id transferId => exact reconciled_leads (congrArg Prod.fst is)
  | checkSource id transferId =>
    rw [Store.resume] at is
    split at is
    · cases is
      exact .unchecked
    · next record read =>
      split at is
      · next deletable =>
        cases is
        exact .source read deletable
      · cases is
        exact .unchecked
  | readUpdate reconciles transferId status error sourceDeleted =>
    have goes := next_goes.mp (congrArg Prod.fst is)
    simp only [bind_eq_ok_iff] at goes
    obtain ⟨record, read, goes⟩ := goes
    cases goes
    exact .updates read
  | readCut transferId sessionId destination mode tier =>
    have goes := next_goes.mp (congrArg Prod.fst is)
    simp only [bind_eq_ok_iff] at goes
    obtain ⟨bundle, committed, goes⟩ := goes
    cases goes
    exact .cut committed
  | writePayload transferId sessionId destination mode tier bundle =>
    have goes := next_goes.mp (congrArg Prod.fst is)
    cases answer : chance.write.answer with
    | error failure =>
      rw [answer] at goes
      cases goes
    | ok =>
      rw [answer] at goes
      cases goes
      exact .sealed
  | hashPayload transferId sessionId destination mode tier bundle key bytes =>
    have goes := next_goes.mp (congrArg Prod.fst is)
    split at goes
    · cases goes
    · cases goes
      exact .hashed
  | checkSession record =>
    rw [Store.resume] at is
    split at is
    · cases is
    · split at is
      · cases is
      · cases is
        exact .registered
  | checkPayload record =>
    rw [Store.resume] at is
    split at is
    · cases is
    · split at is
      · cases is
      · cases is
  | movePayload record path =>
    rw [Store.resume] at is
    split at is
    · cases is
    · split at is
      · dsimp only at is
        split at is
        · cases is
        · cases is
        · cases is
          exact .accepted
      · cases is
  | openPayload record expected =>
    have goes := next_goes.mp (congrArg Prod.fst is)
    split at goes
    · cases goes
    · next content found =>
      simp only [bind_eq_ok_iff] at goes
      obtain ⟨bundle, opens, -, -, -, -, goes⟩ := goes
      cases goes
      exact .opened found opens
  | installImported record bundle =>
    rw [Store.resume] at is
    split at is
    · cases is
    · next admits =>
      dsimp only at is
      split at is
      · cases is
        exact .installed admits
      · cases is
  | _ => cases is

/-- An import goes on once its bundle is on disk. -/
theorem resume_durable {bundle : SessionBundle}
    (is : store.resume outside chance (.installImported record bundle) = (.goes next, after)) : chance.write = .done := by
  rw [Store.resume] at is
  split at is
  · cases is
  · dsimp only at is
    split at is
    · next done => exact done
    · cases is

theorem interrupt_goes {failure : String} (is : interrupt failure pending = .goes next) :
    pending.Leads outside store next ∧ ∃ transferId status error, next = .readUpdate true transferId status error false := by
  cases pending with
  | checkSource id transferId =>
    cases is
    exact ⟨.unchecked, _, _, _, rfl⟩
  | removeSource reconciles id transferId =>
    refine ⟨reconciled_leads is, ?_⟩
    cases reconciles with
    | false => cases is
    | true =>
      cases is
      exact ⟨_, _, _, rfl⟩
  | _ => cases is

/-- The first step of a call does not touch the files. -/
theorem start_files (call : Call) : (store.start outside call).2.files = store.files := by
  cases call with
  | create id | delete id | begin id revision key hash | commit id revision key hash bundle result => exact settle_files _
  | _ => rfl

/-- What a step of a call does to the files that transfers are about. -/
inductive Written (store : Store) (chance : Chance) (pending : Pending) (outcome : Outcome) : Files → Prop
  | none {files : Files} (journals : files.journals = store.files.journals)
      (payloads : files.payloads = store.files.payloads)
      (staging : files.staging = store.files.staging) : Written store chance pending outcome files
  | journal {files : Files} {record : TransferRecord} {answer : Except String Answer} (wrote : chance.write ≠ .unwritten)
      (writes : pending.journaled = some record) (ends : outcome = .ends answer)
      (journals : files.journals = store.files.journals.insert record.view.id record)
      (payloads : files.payloads = store.files.payloads) (staging : files.staging = store.files.staging) :
      Written store chance pending outcome files
  | payload {files : Files} {transferId sessionId destination mode tier : String} {bundle : SessionBundle}
      {key : Hash} {nonce : Bytes}
      (seals : pending = .writePayload transferId sessionId destination mode tier bundle)
      (journals : files.journals = store.files.journals)
      (payloads : files.payloads = store.files.payloads.insert transferId (.envelope key nonce bundle))
      (staging : files.staging = store.files.staging) : Written store chance pending outcome files
  | moved {files : Files} {record : TransferRecord} {path : String} {content : Content}
      (moves : pending = .movePayload record path)
      (found : store.files.staging.lookup path = some content) (journals : files.journals = store.files.journals)
      (payloads : files.payloads = store.files.payloads.insert record.view.id content)
      (staging : files.staging = store.files.staging.erase path) : Written store chance pending outcome files

/-- A step of a call says nothing of the other calls. -/
structure Resumed (store : Store) (chance : Chance) (pending : Pending) (both : Outcome × Store) : Prop where
  others : both.2.pending = store.pending
  written : Written store chance pending both.1 both.2.files

theorem Resumed.quiet {both : Outcome × Store} (others : both.2.pending = store.pending)
    (journals : both.2.files.journals = store.files.journals) (payloads : both.2.files.payloads = store.files.payloads)
    (staging : both.2.files.staging = store.files.staging) : Resumed store chance pending both :=
  ⟨others, .none journals payloads staging⟩

theorem writeJournal_resumed {answer : Answer}
    (writes : pending.journaled = some record) : Resumed store chance pending (store.writeJournal chance record answer) := by
  rw [writeJournal]
  cases wrote : chance.write with
  | unwritten => exact .quiet rfl rfl rfl rfl
  | unsynced | done => exact ⟨rfl, .journal (by rw [wrote]; nofun) writes rfl rfl rfl rfl⟩

/-- Only the registry and the bundle files change when a session is removed. -/
theorem removeSource_other (store : Store) (chance : Chance) (id : String) :
    (store.removeSource chance id).2.pending = store.pending ∧
      ∃ bundles, (store.removeSource chance id).2.files = { store.files with bundles := bundles } := by
  rw [removeSource]
  split
  · exact ⟨rfl, store.files.bundles, rfl⟩
  · split
    · exact ⟨rfl, store.files.bundles, rfl⟩
    · dsimp only
      split
      · exact ⟨rfl, _, rfl⟩
      · split
        · exact ⟨rfl, store.files.bundles, rfl⟩
        · exact ⟨rfl, _, rfl⟩
        · exact ⟨rfl, _, rfl⟩

theorem settle_resumed (result : Except String (Answer × Registry)) :
    Resumed store chance pending (store.settle result) := by
  cases result with
  | error failure | ok both => exact .quiet rfl rfl rfl rfl

theorem resume_resumed (chance : Chance) (pending : Pending) :
    Resumed store chance pending (store.resume outside chance pending) := by
  cases pending with
  | installRestored id bundle => exact settle_resumed _
  | removeSource reconciles id transferId =>
    obtain ⟨others, bundles, same⟩ := removeSource_other store chance id
    rw [Store.resume]
    exact .quiet others (by rw [same]) (by rw [same]) (by rw [same])
  | writeUpdate reconciles record | writeExport record | writeRegistered record | writePrepared record
  | writeAccepted record | writeCommitted record => exact writeJournal_resumed rfl
  | writePayload transferId sessionId destination mode tier bundle =>
    rw [Store.resume]
    cases chance.write with
    | unwritten => exact .quiet rfl rfl rfl rfl
    | unsynced => exact ⟨rfl, .payload rfl rfl rfl rfl⟩
    | done => exact ⟨rfl, .payload rfl rfl rfl rfl⟩
  | checkSource id transferId | checkSession record | checkPayload record =>
    rw [Store.resume]
    split
    · exact .quiet rfl rfl rfl rfl
    · split
      · exact .quiet rfl rfl rfl rfl
      · exact .quiet rfl rfl rfl rfl
  | movePayload record path =>
    rw [Store.resume]
    split
    · exact .quiet rfl rfl rfl rfl
    · next content found =>
      split
      · dsimp only
        split
        · exact .quiet rfl rfl rfl rfl
        · exact ⟨rfl, .moved rfl found rfl rfl rfl⟩
        · exact ⟨rfl, .moved rfl found rfl rfl rfl⟩
      · exact .quiet rfl rfl rfl rfl
  | installImported record bundle =>
    rw [Store.resume]
    split
    · exact .quiet rfl rfl rfl rfl
    · dsimp only
      split
      · exact .quiet rfl rfl rfl rfl
      · exact .quiet rfl rfl rfl rfl
  | _ => exact .quiet rfl rfl rfl rfl

/-- A call goes on as it would without the others. -/
theorem leads_pending
    (leads : pending.Leads outside { store with pending := others } next) : pending.Leads outside store next := by
  cases leads with
  | source read deletable => exact .source read deletable
  | updates read => exact .updates read
  | cut committed => exact .cut committed
  | opened found opens => exact .opened found opens
  | installed admits => exact .installed admits
  | _ => constructor

theorem written_pending {files : Files}
    (written : Written { store with pending := others } chance pending outcome files) :
    Written store chance pending outcome files := by
  cases written with
  | none journals payloads staging => exact .none journals payloads staging
  | journal wrote writes ends journals payloads staging => exact .journal wrote writes ends journals payloads staging
  | payload seals journals payloads staging => exact .payload seals journals payloads staging
  | moved moves found journals payloads staging => exact .moved moves found journals payloads staging

/-- A step, as far as the calls under way and the files of transfers go. -/
inductive Progress (outside : Outside) (store after : Store) : Action → Prop
  | ended {call : Call} (files : after.files = store.files) (calls : after.pending = store.pending) :
      Progress outside store after (.call call)
  | opened {call : Call} {next : Pending} (files : after.files = store.files) (opens : call.Opens outside store next)
      (calls : after.pending = store.pending ++ [next]) : Progress outside store after (.call call)
  | finished {index : ℕ} {chance : Chance} {pending : Pending} {answer : Except String Answer}
      (at_ : store.pending[index]? = some pending) (written : Written store chance pending (.ends answer) after.files)
      (calls : after.pending = store.pending.eraseIdx index) : Progress outside store after (.resume index chance)
  | went {index : ℕ} {chance : Chance} {pending next : Pending}
      (at_ : store.pending[index]? = some pending) (written : Written store chance pending (.goes next) after.files)
      (leads : pending.Leads outside store next) (durable : ∀ record bundle,
        pending = .installImported record bundle → chance.write = .done)
      (calls : after.pending = store.pending.eraseIdx index ++ [next]) : Progress outside store after (.resume index chance)
  | failed {index : ℕ} {failure : String} {pending : Pending} (at_ : store.pending[index]? = some pending)
      (files : after.files = store.files) (calls : after.pending = store.pending.eraseIdx index) :
      Progress outside store after (.interrupt index failure)
  | noted {index : ℕ} {failure : String} {pending next : Pending} (at_ : store.pending[index]? = some pending)
      (files : after.files = store.files) (leads : pending.Leads outside store next)
      (notes : ∃ transferId status error, next = .readUpdate true transferId status error false)
      (calls : after.pending = store.pending.eraseIdx index ++ [next]) :
        Progress outside store after (.interrupt index failure)
  | uploaded {path : String} {content : Content}
      (files : after.files = { store.files with staging := store.files.staging.insert path content })
      (calls : after.pending = store.pending) : Progress outside store after (.upload path content)
  | crashed (files : after.files = store.files) (calls : after.pending = []) : Progress outside store after .crash

theorem start_pending (call : Call) : (store.start outside call).2.pending = store.pending := by
  cases call with
  | create id | delete id | begin id revision key hash | commit id revision key hash bundle result => exact settle_pending _
  | _ => rfl

theorem step_progress {action : Action} {outcome : Option Outcome} (is : store.step outside action = some (outcome, after)) :
    Progress outside store after action := by
  cases action with
  | call call =>
    have files : (store.start outside call).2.files = store.files := start_files call
    have calls : (store.start outside call).2.pending = store.pending := start_pending call
    generalize ran : store.start outside call = both at files calls
    obtain ⟨began, middle⟩ := both
    simp only [step, ran, Option.some.injEq, Prod.mk.injEq] at is
    obtain ⟨rfl, rfl⟩ := is
    cases began with
    | goes next => exact .opened files (start_goes ran) (congrArg (· ++ [next]) calls)
    | ends answer => exact .ended files calls
  | resume index chance =>
    obtain ⟨pending, at_, is⟩ := Option.map_eq_some_iff.mp is
    let others : Store := { store with pending := store.pending.eraseIdx index }
    have resumed : Resumed others chance pending (others.resume outside chance pending) := resume_resumed chance pending
    generalize ran : others.resume outside chance pending = both at is resumed
    obtain ⟨went, middle⟩ := both
    cases is
    have written := written_pending resumed.written
    cases went with
    | goes next =>
      refine .went at_ written (leads_pending (resume_goes ran)) ?_ (congrArg (· ++ [next]) resumed.others)
      rintro record bundle rfl
      exact resume_durable ran
    | ends answer => exact .finished at_ written resumed.others
  | interrupt index failure =>
    obtain ⟨pending, at_, is⟩ := Option.map_eq_some_iff.mp is
    generalize ran : interrupt failure pending = went at is
    cases is
    cases went with
    | goes next =>
      obtain ⟨leads, notes⟩ : pending.Leads outside store next ∧ _ := interrupt_goes ran
      exact .noted at_ rfl leads notes rfl
    | ends answer => exact .failed at_ rfl rfl
  | upload path content =>
    cases is
    exact .uploaded rfl rfl
  | crash =>
    cases is
    exact .crashed rfl rfl

end Store

end Muser.Sessions
