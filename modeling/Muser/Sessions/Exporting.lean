import Muser.Sessions.Moving

/-! # The source of a transfer

What is under way at the source fits the transfer, and what is sealed for it is one of the cuts.
-/

namespace Muser.Sessions

section Source

variable {outside : Outside} {store after : Store} {transfer : Transfer} {cuts cuts' : List SessionBundle}
  {acknowledged acknowledged' : Prop} {pending next : Pending} {action : Store.Action} {outcome : Option Outcome}

theorem Content.Cut.mono {content : Content} (cut : content.Cut cuts)
    (more : ∀ bundle ∈ cuts, bundle ∈ cuts') : content.Cut cuts' := by
  obtain ⟨key, nonce, bundle, rfl, mem⟩ := cut
  exact ⟨key, nonce, bundle, rfl, more bundle mem⟩

variable {record : TransferRecord}

theorem TransferRecord.Outgoing.mono (outgoing : record.Outgoing transfer acknowledged)
    (also : acknowledged → acknowledged') : record.Outgoing transfer acknowledged' :=
  ⟨outgoing.session, outgoing.mode, fun status => also (outgoing.status status)⟩

theorem Pending.Outgoing.mono (outgoing : pending.Outgoing transfer cuts acknowledged)
    (more : ∀ bundle ∈ cuts, bundle ∈ cuts')
    (also : acknowledged → acknowledged') : pending.Outgoing transfer cuts' acknowledged' := by
  cases pending with
  | checkSource | removeSource => exact fun own => ⟨also (outgoing own).1, (outgoing own).2⟩
  | readUpdate => exact fun own status => also (outgoing own status)
  | writePayload other id destination mode tier bundle => exact fun own => ⟨(outgoing own).1, more bundle (outgoing own).2⟩
  | writeUpdate | writeExport | checkSession | writeRegistered => exact fun own => (outgoing own).mono also
  | _ => exact outgoing

/-- A journal that is written at the source is none of the transfer's, or one that fits it. -/
theorem Pending.Outgoing.journaled (outgoing : pending.Outgoing transfer cuts acknowledged)
    (writes : pending.journaled = some record) (own : record.view.id = transfer.id) :
    record.Outgoing transfer acknowledged := by
  cases pending with
  | writeUpdate reconciles record | writeExport record | writeRegistered record =>
    cases writes
    exact outgoing own
  | writePrepared record | writeAccepted record | writeCommitted record =>
    cases writes
    exact absurd own outgoing
  | _ => cases writes

/-- A call of the source goes on within the transfer. -/
theorem outgoing_leads (exports : store.Exports transfer cuts' acknowledged)
    (outgoing : pending.Outgoing transfer cuts acknowledged)
    (taken : ∀ id destination mode tier bundle, pending = .readCut transfer.id id destination mode tier →
      store.registry.committed id = .ok bundle → bundle ∈ cuts)
    (leads : pending.Leads outside store next) : next.Outgoing transfer cuts acknowledged := by
  cases leads with
  | saved => trivial
  | source read deletable => exact outgoing
  | removed => exact fun _ status => absurd status (by decide)
  | unchecked | retained => exact fun own _ => (outgoing own).1
  | @updates _ other _ _ _ record read =>
    intro own
    have found := journal_ok read
    have name := exports.named _ _ found
    rw [← name] at found
    have fits := exports.journal record (own ▸ found)
    exact ⟨fits.session, fits.mode, fun status => outgoing (name ▸ own) status⟩
  | cut committed =>
    intro own
    refine ⟨outgoing own, ?_⟩
    subst own
    exact taken _ _ _ _ _ rfl committed
  | sealed => exact fun own => (outgoing own).1
  | hashed =>
    intro own
    obtain ⟨session, mode⟩ := outgoing own
    exact ⟨session, mode, fun status => absurd (show acknowledges "prepared" = true from status) (by decide)⟩
  | registered => exact outgoing
  | accepted => exact outgoing
  | opened => exact outgoing
  | installed => exact outgoing

theorem acknowledges_iff {status : String} :
    acknowledges status = true ↔ status = "destination_committed" ∨ status = "destination_committed_source_retained" := by
  simp [acknowledges]

theorem deletable_ok {id : String} (is : deletable record id = true) :
    record.view.sessionId = id ∧ record.view.mode = "move" ∧ acknowledges record.view.status = true := by
  simp only [deletable, Bool.and_eq_true, Bool.or_eq_true, beq_iff_eq] at is
  exact ⟨is.1.1.1.2, is.1.1.2, acknowledges_iff.mpr is.1.2⟩

/-- A call of the source starts within the transfer. -/
theorem outgoing_opens {call : Call} (exports : store.Exports transfer cuts acknowledged)
    (allowed : Moving.exporting transfer (.call call)) (opens : call.Opens outside store next) :
    next.Outgoing transfer cuts acknowledged := by
  cases opens with
  | save => trivial
  | restore => trivial
  | delete read is =>
    rintro rfl
    have fits := exports.journal _ (journal_ok read)
    obtain ⟨session, mode, status⟩ := deletable_ok is
    exact ⟨fits.status status, session.symm.trans fits.session, fits.mode.symm.trans mode⟩
  | reconcileMove read _ status moves =>
    rintro rfl
    have fits := exports.journal _ (journal_ok read)
    exact ⟨fits.status (acknowledges_iff.mpr status), fits.session, fits.mode.symm.trans moves⟩
  | reconcileCopy => exact fun _ status => absurd status (by decide)
  | exports =>
    rintro rfl
    simpa [Moving.exporting] using allowed
  | registers =>
    rintro rfl
    obtain ⟨session, mode⟩ : _ ∧ _ := by simpa [Moving.exporting, outgoingView] using allowed
    exact ⟨session, mode, fun status => absurd (show acknowledges "starting" = true from status) (by decide)⟩
  | resumes => trivial
  | updates =>
    rintro rfl status
    simp [Moving.exporting, status] at allowed
  | prepares =>
    rintro rfl
    simp [Moving.exporting] at allowed
  | accepts read | commits read =>
    rintro own
    rw [exports.named _ _ (journal_ok read)] at own
    simp [Moving.exporting, own] at allowed

theorem Store.Exports.mono (exports : store.Exports transfer cuts acknowledged) (more : ∀ bundle ∈ cuts, bundle ∈ cuts')
    (also : acknowledged → acknowledged') : store.Exports transfer cuts' acknowledged' :=
  ⟨exports.named, fun record found => (exports.journal record found).mono also,
    fun content found => (exports.payload content found).mono more,
      fun pending mem => (exports.calls pending mem).mono more also⟩

theorem Store.Exports.of_files (exports : store.Exports transfer cuts acknowledged)
    (journals : after.files.journals = store.files.journals)
    (payloads : after.files.payloads = store.files.payloads)
    (calls : ∀ pending ∈ after.pending, pending.Outgoing transfer cuts acknowledged) :
    after.Exports transfer cuts acknowledged :=
  ⟨by rw [journals]; exact exports.named,
    by rw [journals]; exact exports.journal, by rw [payloads]; exact exports.payload, calls⟩

/-- The files of the source after a step of a call. -/
theorem Store.Exports.of_written {chance : Chance} {began : Outcome} (exports : store.Exports transfer cuts acknowledged)
    (outgoing : pending.Outgoing transfer cuts acknowledged) (written : store.Written chance pending began after.files)
    (calls : ∀ pending ∈ after.pending, pending.Outgoing transfer cuts acknowledged) :
    after.Exports transfer cuts acknowledged := by
  cases written with
  | none journals payloads => exact exports.of_files journals payloads calls
  | journal _ writes _ journals payloads =>
    refine ⟨?_, ?_, by rw [payloads]; exact exports.payload, calls⟩
    · rw [journals]
      intro name other found
      rcases Table.lookup_insert_cases found with ⟨rfl, rfl⟩ | ⟨-, found⟩
      · rfl
      · exact exports.named name other found
    · rw [journals]
      intro other found
      rcases Table.lookup_insert_cases found with ⟨own, rfl⟩ | ⟨-, found⟩
      · exact outgoing.journaled writes own.symm
      · exact exports.journal other found
  | payload seals journals payloads =>
    subst seals
    refine ⟨by rw [journals]; exact exports.named, by rw [journals]; exact exports.journal, ?_, calls⟩
    rw [payloads]
    intro content found
    rcases Table.lookup_insert_cases found with ⟨own, rfl⟩ | ⟨-, found⟩
    · exact ⟨_, _, _, rfl, (outgoing own.symm).2⟩
    · exact exports.payload content found
  | moved moves _ journals payloads =>
    subst moves
    refine ⟨by rw [journals]; exact exports.named, by rw [journals]; exact exports.journal, ?_, calls⟩
    rw [payloads]
    intro content found
    rcases Table.lookup_insert_cases found with ⟨own, -⟩ | ⟨-, found⟩
    · exact absurd own.symm outgoing
    · exact exports.payload content found

/-- The calls under way when one of them has gone on. -/
theorem Store.Exports.join {index : ℕ} (exports : store.Exports transfer cuts acknowledged)
    (outgoing : next.Outgoing transfer cuts acknowledged) :
    ∀ pending ∈ store.pending.eraseIdx index ++ [next], pending.Outgoing transfer cuts acknowledged := by
  intro pending mem
  rcases List.mem_append.mp mem with mem | mem
  · exact exports.calls pending (List.mem_of_mem_eraseIdx mem)
  · rw [List.mem_singleton.mp mem]
    exact outgoing

/-- A step of the source. A call may start with what is said of the transfer elsewhere. -/
theorem exports_step (exports : store.Exports transfer cuts acknowledged)
    (opens : ∀ call next, action = .call call → call.Opens outside store next → next.Outgoing transfer cuts acknowledged)
    (is : store.step outside action = some (outcome, after)) :
    after.Exports transfer (cuts ++ Moving.cutBy transfer store action) acknowledged := by
  have wider : store.Exports transfer (cuts ++ Moving.cutBy transfer store action) acknowledged :=
    exports.mono (fun _ mem => List.mem_append_left _ mem) id
  cases Store.step_progress is with
  | @opened call next files opened calls =>
    refine wider.of_files (by rw [files]) (by rw [files]) fun pending mem => ?_
    rw [calls] at mem
    rcases List.mem_append.mp mem with mem | mem
    · exact wider.calls pending mem
    · rw [List.mem_singleton.mp mem]
      exact (opens call next rfl opened).mono (fun _ mem => List.mem_append_left _ mem) id
  | @finished index chance pending answer at_ written calls =>
    refine wider.of_written (wider.calls pending (List.mem_of_getElem? at_)) written fun pending mem => ?_
    rw [calls] at mem
    exact wider.calls pending (List.mem_of_mem_eraseIdx mem)
  | @went index chance pending next at_ written leads _ calls =>
    have outgoing := wider.calls pending (List.mem_of_getElem? at_)
    refine wider.of_written outgoing written ?_
    rw [calls]
    refine wider.join (outgoing_leads wider outgoing ?_ leads)
    rintro id destination mode tier bundle rfl committed
    refine List.mem_append_right _ ?_
    rw [Moving.cutBy, at_]
    simp [committed, Except.toOption]
  | @failed index failure pending at_ files calls =>
    refine wider.of_files (by rw [files]) (by rw [files]) fun pending mem => ?_
    rw [calls] at mem
    exact wider.calls pending (List.mem_of_mem_eraseIdx mem)
  | @noted index failure pending next at_ files leads notes calls =>
    refine wider.of_files (by rw [files]) (by rw [files]) ?_
    rw [calls]
    refine wider.join (outgoing_leads wider (wider.calls pending (List.mem_of_getElem? at_)) ?_ leads)
    rintro id destination mode tier bundle rfl committed
    obtain ⟨_, _, _, rfl⟩ := notes
    cases leads
  | ended files calls | uploaded files calls =>
    refine wider.of_files (by rw [files]) (by rw [files]) ?_
    rw [calls]
    exact wider.calls
  | crashed files calls =>
    refine wider.of_files (by rw [files]) (by rw [files]) fun pending mem => ?_
    rw [calls] at mem
    cases mem

end Source

end Muser.Sessions
