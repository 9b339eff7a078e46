import Muser.Sessions.Exporting

/-! # The destination of a transfer

Whatever arrives for the transfer is one of the cuts, and the destination says that it has committed
the transfer only when it has committed one of them.
-/

namespace Muser.Sessions

section Destination

variable {outside : Outside} {store after : Store} {transfer : Transfer} {cuts cuts' : List SessionBundle}
  {imported imported' : Prop}
  {pending next : Pending} {action : Store.Action} {outcome : Option Outcome}

theorem Pending.Incoming.mono (incoming : pending.Incoming transfer cuts imported) (more : ∀ bundle ∈ cuts, bundle ∈ cuts')
    (also : imported → imported') : pending.Incoming transfer cuts' imported' := by
  cases pending with
  | installImported record bundle => exact fun own => more bundle (incoming own)
  | readUpdate | writeUpdate | writeExport | checkSession | writeRegistered | writePrepared | writeAccepted
  | writeCommitted => exact fun own status => also (incoming own status)
  | _ => exact incoming

theorem Store.Imports.mono (imports : store.Imports transfer cuts imported) (more : ∀ bundle ∈ cuts, bundle ∈ cuts')
    (also : imported → imported') : store.Imports transfer cuts' imported' :=
  ⟨imports.named, fun record found status => also (imports.journal record found status),
    fun path content found => (imports.staging path content found).mono more,
    fun content found => (imports.payload content found).mono more,
    fun pending mem => (imports.calls pending mem).mono more also⟩

theorem Pending.Incoming.journaled {record : TransferRecord} (incoming : pending.Incoming transfer cuts imported)
    (writes : pending.journaled = some record) (own : record.view.id = transfer.id)
    (status : record.view.status = "committed") :
    imported := by
  cases pending with
  | writeUpdate reconciles record | writeExport record | writeRegistered record | writePrepared record
  | writeAccepted record | writeCommitted record =>
    cases writes
    exact incoming own status
  | _ => cases writes

/-- A call of the destination goes on within the transfer. -/
theorem incoming_leads (imports : store.Imports transfer cuts imported) (incoming : pending.Incoming transfer cuts imported)
    (taken : ∀ record bundle, pending = .installImported record bundle → record.view.id = transfer.id →
      store.registry.admitsImport bundle = .ok () → imported)
    (leads : pending.Leads outside store next) : next.Incoming transfer cuts imported := by
  cases leads with
  | saved => trivial
  | source => trivial
  | unchecked | removed | retained => exact fun _ status => absurd status (by decide)
  | updates read =>
    have name := imports.named _ _ (journal_ok read)
    exact fun own status => incoming (name ▸ own) status
  | cut => exact incoming
  | sealed => exact incoming
  | hashed => exact fun _ status => absurd (show "prepared" = "committed" from status) (by decide)
  | registered => exact incoming
  | accepted => exact fun _ status => absurd (show "uploaded" = "committed" from status) (by decide)
  | opened found opens =>
    intro own
    rw [own] at found
    obtain ⟨key, nonce, bundle, rfl, mem⟩ := imports.payload _ found
    rw [Content.decrypt] at opens
    split at opens
    · cases opens
      exact mem
    · cases opens
  | installed admits => exact fun own _ => taken _ _ rfl own admits

/-- A call of the destination starts within the transfer. -/
theorem incoming_opens {call : Call} (allowed : Moving.importing transfer (.call call))
    (opens : call.Opens outside store next) :
    next.Incoming transfer cuts imported := by
  cases opens with
  | reconcileCopy => exact fun _ status => absurd status (by decide)
  | registers => exact fun _ status => absurd (show "starting" = "committed" from status) (by decide)
  | exports | updates =>
    rintro rfl
    simp [Moving.importing] at allowed
  | prepares => exact fun _ status => absurd (show "prepared" = "committed" from status) (by decide)
  | _ => trivial

/-- The files of the destination after a step of a call. -/
theorem Store.Imports.of_written {chance : Chance} {began : Outcome} (imports : store.Imports transfer cuts imported)
    (incoming : pending.Incoming transfer cuts imported) (written : store.Written chance pending began after.files)
    (calls : ∀ pending ∈ after.pending, pending.Incoming transfer cuts imported) : after.Imports transfer cuts imported := by
  cases written with
  | none journals payloads staging =>
    exact ⟨by rw [journals]; exact imports.named,
      by rw [journals]; exact imports.journal, by rw [staging]; exact imports.staging,
      by rw [payloads]; exact imports.payload, calls⟩
  | journal _ writes _ journals payloads staging =>
    refine ⟨?_, ?_, by rw [staging]; exact imports.staging, by rw [payloads]; exact imports.payload, calls⟩
    · rw [journals]
      intro name other found
      rcases Table.lookup_insert_cases found with ⟨rfl, rfl⟩ | ⟨-, found⟩
      · rfl
      · exact imports.named name other found
    · rw [journals]
      intro other found status
      rcases Table.lookup_insert_cases found with ⟨own, rfl⟩ | ⟨-, found⟩
      · exact incoming.journaled writes own.symm status
      · exact imports.journal other found status
  | payload seals journals payloads staging =>
    subst seals
    refine ⟨by rw [journals]; exact imports.named,
      by rw [journals]; exact imports.journal, by rw [staging]; exact imports.staging, ?_, calls⟩
    rw [payloads]
    intro content found
    rcases Table.lookup_insert_cases found with ⟨own, -⟩ | ⟨-, found⟩
    · exact absurd own.symm incoming
    · exact imports.payload content found
  | moved moves uploaded journals payloads staging =>
    refine ⟨by rw [journals]; exact imports.named, by rw [journals]; exact imports.journal, ?_, ?_, calls⟩
    · rw [staging]
      intro path content found
      exact imports.staging path content (Table.lookup_erase_eq_some found).2
    · rw [payloads]
      intro content found
      rcases Table.lookup_insert_cases found with ⟨-, rfl⟩ | ⟨-, found⟩
      · exact imports.staging _ _ uploaded
      · exact imports.payload content found

theorem Store.Imports.of_files (imports : store.Imports transfer cuts imported) (files : after.files = store.files)
    (calls : ∀ pending ∈ after.pending, pending.Incoming transfer cuts imported) : after.Imports transfer cuts imported :=
  ⟨by rw [files]; exact imports.named, by rw [files]; exact imports.journal, by rw [files]; exact imports.staging,
    by rw [files]; exact imports.payload, calls⟩

theorem Store.Imports.join {index : ℕ} (imports : store.Imports transfer cuts imported)
    (incoming : next.Incoming transfer cuts imported) :
    ∀ pending ∈ store.pending.eraseIdx index ++ [next], pending.Incoming transfer cuts imported := by
  intro pending mem
  rcases List.mem_append.mp mem with mem | mem
  · exact imports.calls pending (List.mem_of_mem_eraseIdx mem)
  · rw [List.mem_singleton.mp mem]
    exact incoming

/-- A step of the destination. -/
theorem imports_step (imports : store.Imports transfer cuts imported) (also : imported → imported')
    (taken : Moving.importedBy transfer store action ≠ [] → imported')
    (allowed : Moving.importing transfer action) (is : store.step outside action = some (outcome, after)) :
    after.Imports transfer cuts imported' := by
  have wider := imports.mono (fun _ mem => mem) also
  cases Store.step_progress is with
  | ended files calls =>
    refine wider.of_files files ?_
    rw [calls]
    exact wider.calls
  | @opened call next files opened calls =>
    refine wider.of_files files fun pending mem => ?_
    rw [calls] at mem
    rcases List.mem_append.mp mem with mem | mem
    · exact wider.calls pending mem
    · rw [List.mem_singleton.mp mem]
      exact incoming_opens allowed opened
  | @finished index chance pending answer at_ written calls =>
    refine wider.of_written (wider.calls pending (List.mem_of_getElem? at_)) written fun pending mem => ?_
    rw [calls] at mem
    exact wider.calls pending (List.mem_of_mem_eraseIdx mem)
  | @went index chance pending next at_ written leads durable calls =>
    have incoming := wider.calls pending (List.mem_of_getElem? at_)
    refine wider.of_written incoming written ?_
    rw [calls]
    refine wider.join (incoming_leads wider incoming ?_ leads)
    rintro record bundle rfl own admits
    apply taken
    rw [Moving.importedBy, at_]
    simp [own, admits, Except.isOk, Except.toBool, durable record bundle rfl]
  | @failed index failure pending at_ files calls =>
    refine wider.of_files files fun pending mem => ?_
    rw [calls] at mem
    exact wider.calls pending (List.mem_of_mem_eraseIdx mem)
  | @noted index failure pending next at_ files leads notes calls =>
    refine wider.of_files files ?_
    rw [calls]
    refine wider.join (incoming_leads wider (wider.calls pending (List.mem_of_getElem? at_)) ?_ leads)
    rintro record bundle rfl own admits
    obtain ⟨_, _, _, rfl⟩ := notes
    cases leads
  | uploaded files calls => cases allowed
  | crashed files calls =>
    refine wider.of_files files fun pending mem => ?_
    rw [calls] at mem
    cases mem

theorem importedBy_cut (imports : store.Imports transfer cuts imported) {bundle : SessionBundle}
    (mem : bundle ∈ Moving.importedBy transfer store action) : bundle ∈ cuts := by
  cases action with
  | resume index chance =>
    rw [Moving.importedBy] at mem
    split at mem
    · next record bundle' at_ =>
      split at mem
      · next done =>
        rw [List.mem_singleton.mp mem]
        exact imports.calls _ (List.mem_of_getElem? at_) done.1
      · cases mem
    · cases mem
  | _ => cases mem

variable {view : TransferView}

theorem answered_ends {answer : Except String Answer}
    (mem : view ∈ Moving.answered (some (.ends answer))) : answer = .ok (.transfer view) := by
  rw [Moving.answered.eq_def] at mem
  split at mem
  · next same =>
    cases same
    rw [List.mem_singleton.mp mem]
  · cases mem

theorem answered_next (result : Except String Pending) : Moving.answered (some (Store.next result)) = [] := by
  cases result <;> rfl

theorem answered_registry {result : Except String (Answer × Registry)}
    (other : ∀ view registry, result ≠ .ok (.transfer view, registry)) :
    Moving.answered (some (store.settle result).1) = [] := by
  cases result with
  | error failure => rfl
  | ok both =>
    obtain ⟨answer, registry⟩ := both
    cases answer with
    | transfer view => exact absurd rfl (other view registry)
    | _ => rfl

/-- What a call answers of a transfer is in a journal. -/
theorem start_answered {call : Call} (mem : view ∈ Moving.answered (some (store.start outside call).1)) :
    ∃ name record, store.files.journals.lookup name = some record ∧ record.view = view := by
  cases call with
  | begin id revision key hash =>
    rw [Store.start, answered_registry] at mem
    · cases mem
    · intro view registry same
      simp only [bind_eq_ok_iff] at same
      obtain ⟨-, -, -, -, _, -, same⟩ := same
      cases same
  | create id | delete id | commit id revision key hash bundle result =>
    rw [Store.start, answered_registry] at mem
    · cases mem
    · intro view registry same
      simp only [bind_eq_ok_iff] at same
      obtain ⟨-, -, _, -, same⟩ := same
      cases same
  | reconcileOutgoingAfterAck transferId =>
    rw [Store.start, Store.checkReconcile] at mem
    split at mem
    · cases mem
    · split at mem
      · cases mem
      · split at mem
        · cases mem
        · split at mem
          · cases mem
          · split at mem
            · cases mem
            · split at mem
              · cases mem
              · cases mem
  | payloadPath transferId random =>
    have same := answered_ends mem
    simp only [bind_eq_ok_iff] at same
    obtain ⟨_, -, -, -, same⟩ := same
    cases same
  | prepareImport transferId sessionId source mode tier bytes sha256 transportKey identity =>
    rw [Store.start, Store.checkPrepare] at mem
    split at mem
    · cases mem
    · split at mem
      · cases mem
      · next existing found =>
        split at mem
        · obtain rfl := List.mem_singleton.mp mem
          exact ⟨_, existing, found, rfl⟩
        · cases mem
  | commitImport transferId expected =>
    rw [Store.start, Store.checkCommit] at mem
    split at mem
    · cases mem
    · next record read =>
      simp only [bind_eq_ok_iff] at read
      obtain ⟨record', read, ⟨⟩, -, same⟩ := read
      cases same
      split at mem
      · obtain rfl := List.mem_singleton.mp mem
        exact ⟨_, record, journal_ok read, rfl⟩
      · split at mem
        · cases mem
        · cases mem
  | abort id => cases mem
  | updateTransfer => cases mem
  | _ =>
    rw [Store.start, answered_next] at mem
    cases mem

theorem answered_reconciled (reconciles : Bool) (transferId : String) (result : Except String Bool) :
    Moving.answered (some (Store.reconciled reconciles transferId result)) = [] := by
  cases reconciles with
  | false | true => cases result <;> rfl

/-- What a later step answers of a transfer is in the journal that it writes. -/
theorem resume_answered {chance : Chance}
    (mem : view ∈ Moving.answered (some (store.resume outside chance pending).1)) :
    ∃ record, pending.journaled = some record ∧ record.view = view := by
  have written : ∀ {record : TransferRecord} {answer : Answer}, pending.journaled = some record →
      (∀ view, answer = .transfer view → record.view = view) →
      view ∈ Moving.answered (some (store.writeJournal chance record answer).1) → ∃ record,
        pending.journaled = some record ∧ record.view = view := by
    intro record answer writes its mem
    have same := answered_ends mem
    cases wrote : chance.write.answer with
    | error failure =>
      rw [wrote] at same
      cases same
    | ok =>
      rw [wrote] at same
      cases same
      exact ⟨record, writes, its view rfl⟩
  cases pending with
  | writeUpdate reconciles record =>
    refine written rfl (fun view same => ?_) mem
    split at same
    · cases same
    · cases same
      rfl
  | writeExport record => exact written rfl (fun view same => by cases same) mem
  | writeRegistered record | writePrepared record | writeAccepted record | writeCommitted record =>
    exact written rfl (fun view same => by cases same; rfl) mem
  | noteSaved id => cases mem
  | installRestored id bundle =>
    rw [Store.resume, answered_registry] at mem
    · cases mem
    · intro view registry same
      cases restored : store.registry.restore id bundle with
      | error failure =>
        rw [restored] at same
        cases same
      | ok registry' =>
        rw [restored] at same
        cases same
  | removeSource reconciles id transferId =>
    rw [Store.resume, answered_reconciled] at mem
    cases mem
  | checkSource id transferId | checkSession record | checkPayload record =>
    rw [Store.resume] at mem
    split at mem
    · cases mem
    · split at mem
      · cases mem
      · cases mem
  | movePayload record path =>
    rw [Store.resume] at mem
    split at mem
    · cases mem
    · split at mem
      · dsimp only at mem
        split at mem
        · cases mem
        · cases mem
        · cases mem
      · cases mem
  | installImported record bundle =>
    rw [Store.resume] at mem
    split at mem
    · cases mem
    · dsimp only at mem
      split at mem
      · cases mem
      · cases mem
  | _ =>
    rw [Store.resume, answered_next] at mem
    cases mem

/-- What the destination answers of the transfer is true when it answers. -/
theorem answered_step (imports : store.Imports transfer cuts imported)
    (is : store.step outside action = some (outcome, after))
    (mem : view ∈ Moving.answered outcome) (own : view.id = transfer.id) (status : view.status = "committed") :
    imported := by
  cases action with
  | call call =>
    cases is
    obtain ⟨name, record, found, rfl⟩ := start_answered mem
    rw [← imports.named _ _ found, own] at found
    exact imports.journal record found status
  | resume index chance =>
    obtain ⟨pending, at_, is⟩ := Option.map_eq_some_iff.mp is
    cases is
    obtain ⟨record, writes, rfl⟩ := resume_answered mem
    exact (imports.calls pending (List.mem_of_getElem? at_)).journaled writes own status
  | interrupt index failure =>
    obtain ⟨pending, at_, is⟩ := Option.map_eq_some_iff.mp is
    cases is
    cases pending with
    | checkSource id transferId => cases mem
    | removeSource reconciles id transferId =>
      rw [Store.interrupt, answered_reconciled] at mem
      cases mem
    | _ => cases mem
  | upload path content | crash =>
    cases is
    cases mem

end Destination

end Muser.Sessions
