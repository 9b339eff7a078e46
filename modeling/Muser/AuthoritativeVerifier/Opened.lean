import Muser.AuthoritativeVerifier.Steps

/-! # What a successful `open` has established

The reopened journal is described by the files alone: which records it remembers, which of them it
has verified, and which commits it has applied. The lemmas follow the restore passes in order and
are collected in `Opened`.
-/

namespace Muser.Verifier

variable {p : Primitives}

/-- A directory holds this record for a request, in a whole file. -/
def Disk.Holds (p : Primitives) (disk : Disk) (directory : Slot) (requestId : String) (record : directory.Record) :
    Prop :=
  ∃ envelope : JournalEnvelopeV2 directory.Record,
    (disk.slots directory).lookup (slotStem p requestId) = some (.whole envelope) ∧ envelope.payload = record ∧
      directory.requestId record = requestId

variable {directory : Slot} {active : Table ActiveRecordV2} {α : Type} {requestId : String}

/-- A file that reads back as a record is whole and holds this record. -/
theorem readRecord_ok {journal : Journal} {file : SlotFile directory.Record}
    {record : directory.Record} (read : readRecord p journal directory file = .ok record) :
    ∃ envelope : JournalEnvelopeV2 directory.Record, file = .whole envelope ∧ envelope.payload = record := by
  rw [readRecord, bind_eq_ok_iff] at read
  obtain ⟨envelope, parsed, decoded⟩ := read
  simp only [decodeJournal, check_eq_ok_iff] at decoded
  obtain ⟨_, _, _, decoded⟩ := decoded
  cases file with
  | torn bytes => simp [SlotFile.readJson, check_eq_ok_iff] at parsed
  | whole stored =>
    simp only [SlotFile.readJson, check_eq_ok_iff] at parsed
    cases parsed.2
    exact ⟨envelope, rfl, Except.ok.inj decoded⟩

section ReadSlots

variable {journal : Journal} {directory : Slot}

/-- The records of the entries read so far, one by one. -/
theorem readSlotsFrom_ok {entries : List (Σ _ : String, SlotFile directory.Record)}
    {records final : Table directory.Record} (read : readSlotsFrom p journal directory entries records = .ok final) :
    (∀ entry ∈ entries, ∃ record, readRecord p journal directory entry.2 = .ok record ∧
        slotStem p (directory.requestId record) = entry.1) ∧
      ∀ requestId record, final.lookup requestId = some record ↔ records.lookup requestId = some record ∨
        ∃ entry ∈ entries, readRecord p journal directory entry.2 = .ok record ∧
          directory.requestId record = requestId := by
  induction entries generalizing records with
  | nil =>
    cases read
    simp
  | cons entry rest ih =>
    obtain ⟨stem, file⟩ := entry
    rw [readSlotsFrom, bind_eq_ok_iff] at read
    obtain ⟨first, firstRead, read⟩ := read
    simp only [check_eq_ok_iff, reject_eq_ok_iff, Bool.or_eq_false_iff, bne_eq_false_iff_eq,
      Option.isSome_eq_false_iff, Option.isNone_iff_eq_none] at read
    obtain ⟨⟨named, fresh⟩, read⟩ := read
    obtain ⟨later, lookups⟩ := ih read
    refine ⟨fun other member => ?_, fun requestId record => ?_⟩
    · rcases List.mem_cons.mp member with rfl | member
      · exact ⟨first, firstRead, named⟩
      · exact later other member
    · rw [lookups, Table.lookup_insert_eq]
      constructor
      · rintro (inserted | ⟨other, member, found⟩)
        · split at inserted
          · rename_i same
            cases inserted
            exact .inr ⟨⟨stem, file⟩, List.mem_cons_self .., firstRead, same.symm⟩
          · exact .inl inserted
        · exact .inr ⟨other, List.mem_cons_of_mem _ member, found⟩
      · rintro (earlier | ⟨other, member, found, identified⟩)
        · refine .inl ?_
          rw [if_neg, earlier]
          rintro rfl
          rw [fresh] at earlier
          cases earlier
        · rcases List.mem_cons.mp member with rfl | member
          · have same : first = record := Except.ok.inj (firstRead.symm.trans found)
            subst same
            exact .inl (by rw [if_pos identified.symm])
          · exact .inr ⟨other, member, found, identified⟩

/-- Every file of a directory that reads is whole and carries its request's name. -/
theorem readSlots_files {disk : Disk} {records : Table directory.Record}
    (read : readSlots p journal disk directory = .ok records) {stem : String} {file : SlotFile directory.Record}
    (found : (disk.slots directory).lookup stem = some file) :
    ∃ record, readRecord p journal directory file = .ok record ∧ slotStem p (directory.requestId record) = stem :=
  (readSlotsFrom_ok read).1 ⟨stem, file⟩ (Table.mem_entries_iff.mpr found)

/-- The records that `read_slots` answers are the records that the directory holds. -/
theorem readSlots_lookup {disk : Disk} {records : Table directory.Record}
    (read : readSlots p journal disk directory = .ok records) {requestId : String} {record : directory.Record} :
    records.lookup requestId = some record ↔ disk.Holds p directory requestId record := by
  rw [(readSlotsFrom_ok read).2]
  constructor
  · rintro (none | ⟨⟨stem, file⟩, member, found, identified⟩)
    · simp at none
    · have stored := Table.mem_entries_iff.mp member
      obtain ⟨again, reads, named⟩ := readSlots_files read stored
      have same : again = record := Except.ok.inj (reads.symm.trans found)
      subst same
      obtain ⟨envelope, whole, payload⟩ := readRecord_ok found
      exact ⟨envelope, by rw [← identified, named, stored, whole], payload, identified⟩
  · rintro ⟨envelope, stored, payload, identified⟩
    obtain ⟨again, reads, _⟩ := readSlots_files read stored
    obtain ⟨envelope', whole, payload'⟩ := readRecord_ok reads
    cases whole
    have same : again = record := payload'.symm.trans payload
    subst same
    exact .inr ⟨⟨_, _⟩, Table.mem_entries_iff.mpr stored, reads, identified⟩

/-- Reading depends on the identity of the journal alone. -/
theorem readSlots_congr {other : Journal} {disk : Disk}
    (records : journal.sessionRecordSha256 = other.sessionRecordSha256) (keys : journal.key = other.key) :
    readSlots p journal disk directory = readSlots p other disk directory := by
  have files : readRecord p journal directory = readRecord p other directory := by
    funext file
    simp only [readRecord, records, keys]
  have lists : ∀ entries table, readSlotsFrom p journal directory entries table =
      readSlotsFrom p other directory entries table := by
    intro entries
    induction entries with
    | nil => exact fun _ => rfl
    | cons entry rest ih =>
      intro table
      simp only [readSlotsFrom, files, ih]
  exact lists ..

end ReadSlots

/-- What the restore pass checks of every commit. -/
structure CommitChecked (p : Primitives) (disk : Disk) (session : SessionCoreV2) (key : MacKey)
    (tombstones : Table TombstoneRecordV2) (commit : CommitRecordV2) : Prop where
  verified : commit.request.verifyHistorical p session key = .ok ()
  answered : commit.result.verifyAgainst p commit.request session = .ok ()
  receiptValid : validateStageReceipt p commit.renderer commit.result = .ok ()
  retained : tombstones.lookup commit.request.core.requestId = none → verifyFragmentCas p disk commit.result = .ok ()

variable {disk : Disk} {journal after : Journal}

theorem restoreCommit_ok {last : Bool} {commit : CommitRecordV2}
    (restored : restoreCommit p disk active last commit journal = .ok after) :
    CommitChecked p disk journal.session.core journal.key journal.tombstones commit ∧
      ((∃ record, active.lookup commit.request.core.requestId = some record ∧
          record.resultSha256 = commit.result.recordDigest p ∧
          record.newHeadSha256 = commit.result.core.newHeadSha256 ∧
          journal.applyActive p commit.request commit.result = .ok after) ∨
        (active.lookup commit.request.core.requestId = none ∧ journal.pendingActivation = none ∧ last = true ∧
          after = { journal with pendingActivation := some commit })) := by
  rw [restoreCommit, check_eq_ok_iff, check_eq_ok_iff, check_eq_ok_iff, check_eq_ok_iff] at restored
  obtain ⟨verified, answered, receiptValid, retained, restored⟩ := restored
  refine ⟨⟨verified, answered, receiptValid, fun unretired => ?_⟩, ?_⟩
  · simpa [verifyRetained, unretired] using retained
  cases activated : active.lookup commit.request.core.requestId with
  | some record =>
    simp only [activated, check_eq_ok_iff, reject_eq_ok_iff, Bool.or_eq_false_iff, bne_eq_false_iff_eq] at restored
    exact .inl ⟨record, rfl, restored.1.1, restored.1.2, restored.2⟩
  | none =>
    simp only [activated, check_eq_ok_iff, reject_eq_ok_iff, Bool.not_eq_false', Bool.and_eq_true,
      Option.isNone_iff_eq_none] at restored
    exact .inr ⟨rfl, restored.1.1, restored.1.2, (Except.ok.inj restored.2).symm⟩

/-- What the restore loop leaves behind: only the parent, the completions and the pending commit move. -/
structure ChainRestored (p : Primitives) (disk : Disk) (active : Table ActiveRecordV2)
    (commits : Table CommitRecordV2) (journal final : Journal) : Prop where
  only : final = { journal with
    evaluatedTokens := final.evaluatedTokens
    outputHeight := final.outputHeight
    headSha256 := final.headSha256
    frontier := final.frontier
    samplerState := final.samplerState
    completions := final.completions
    pendingActivation := final.pendingActivation }
  checked : ∀ requestId commit, commits.lookup requestId = some commit →
    CommitChecked p disk journal.session.core journal.key journal.tombstones commit
  agrees : ∀ requestId commit record, commits.lookup requestId = some commit → active.lookup requestId = some record →
    record.resultSha256 = commit.result.recordDigest p ∧ record.newHeadSha256 = commit.result.core.newHeadSha256
  completions : ∀ requestId result, final.completions.lookup requestId = some result ↔
    journal.completions.lookup requestId = some result ∨ ∃ commit record,
      commits.lookup requestId = some commit ∧ commit.result = result ∧ active.lookup requestId = some record
  pending : ∀ commit, final.pendingActivation = some commit ↔
    journal.pendingActivation = some commit ∨ ∃ requestId,
      commits.lookup requestId = some commit ∧ active.lookup requestId = none

/-- One iteration before the rest of the loop. -/
theorem ChainRestored.cons {disk : Disk} {active : Table ActiveRecordV2} {commits : Table CommitRecordV2}
    {journal after final : Journal} {commit : CommitRecordV2}
    (found : commits.lookup commit.request.core.requestId = some commit)
    (fresh : journal.completions.lookup commit.request.core.requestId = none)
    (step : restoreCommit p disk active (commits.erase commit.request.core.requestId).entries.isEmpty commit journal =
      .ok after) (rest : ChainRestored p disk active (commits.erase commit.request.core.requestId) after final) :
    ChainRestored p disk active commits journal final := by
  obtain ⟨checked, outcome⟩ := restoreCommit_ok step
  have split : ∀ {requestId : String} {other : CommitRecordV2}, commits.lookup requestId = some other →
      (requestId = commit.request.core.requestId ∧ other = commit) ∨
        (commits.erase commit.request.core.requestId).lookup requestId = some other := by
    intro requestId other lookup
    by_cases same : requestId = commit.request.core.requestId
    · subst same
      exact .inl ⟨rfl, Option.some.inj (lookup.symm.trans found)⟩
    · exact .inr (by rw [Table.lookup_erase_eq, if_neg same, lookup])
  rcases outcome with ⟨record, activated, digests, heads, applied⟩ | ⟨inactive, settled, last, rfl⟩
  · obtain rfl := applyActive_fresh fresh applied
    refine ⟨?_, fun requestId other lookup => ?_, fun requestId other stored lookup => ?_, fun requestId result => ?_,
      fun other => ?_⟩
    · exact rest.only
    · rcases split lookup with ⟨_, rfl⟩ | later
      · exact checked
      · exact rest.checked requestId other later
    · intro activeRecord
      rcases split lookup with ⟨rfl, rfl⟩ | later
      · rw [activated] at activeRecord
        cases activeRecord
        exact ⟨digests, heads⟩
      · exact rest.agrees requestId other stored later activeRecord
    · rw [rest.completions]
      have inserted : (journal.advance commit.request.core.requestId commit.result).completions.lookup requestId =
          if requestId = commit.request.core.requestId then some commit.result
          else journal.completions.lookup requestId := Table.lookup_insert_eq ..
      rw [inserted]
      constructor
      · rintro (now | ⟨other, stored, lookup, results, activeLookup⟩)
        · split at now
          · rename_i same
            subst same
            exact .inr ⟨commit, record, found, Option.some.inj now, activated⟩
          · exact .inl now
        · exact .inr ⟨other, stored, (Table.lookup_erase_eq_some lookup).2, results, activeLookup⟩
      · rintro (earlier | ⟨other, stored, lookup, results, activeLookup⟩)
        · refine .inl ?_
          rw [if_neg, earlier]
          rintro rfl
          rw [fresh] at earlier
          cases earlier
        · rcases split lookup with ⟨rfl, rfl⟩ | later
          · exact .inl (by rw [if_pos rfl, results])
          · exact .inr ⟨other, stored, later, results, activeLookup⟩
    · rw [rest.pending]
      constructor
      · rintro (earlier | ⟨requestId, lookup, absent⟩)
        · exact .inl earlier
        · exact .inr ⟨requestId, (Table.lookup_erase_eq_some lookup).2, absent⟩
      · rintro (earlier | ⟨requestId, lookup, absent⟩)
        · exact .inl earlier
        · rcases split lookup with ⟨rfl, rfl⟩ | later
          · rw [activated] at absent
            cases absent
          · exact .inr ⟨requestId, later, absent⟩
  · -- An inactive commit is the last one, so the rest of the loop does nothing.
    have alone : ∀ {requestId : String} {other : CommitRecordV2}, commits.lookup requestId = some other →
        requestId = commit.request.core.requestId ∧ other = commit := by
      intro requestId other lookup
      rcases split lookup with same | later
      · exact same
      · rw [Table.lookup_of_entries_nil (List.isEmpty_iff.mp last)] at later
        cases later
    refine ⟨?_, fun requestId other lookup => ?_, fun requestId other stored lookup => ?_, fun requestId result => ?_,
      fun other => ?_⟩
    · exact rest.only
    · rw [(alone lookup).2]
      exact checked
    · intro activeRecord
      rw [(alone lookup).1, inactive] at activeRecord
      cases activeRecord
    · rw [rest.completions]
      constructor
      · rintro (earlier | ⟨other, stored, lookup, results, activeLookup⟩)
        · exact .inl earlier
        · exact .inr ⟨other, stored, (Table.lookup_erase_eq_some lookup).2, results, activeLookup⟩
      · rintro (earlier | ⟨other, stored, lookup, results, activeLookup⟩)
        · exact .inl earlier
        · rw [(alone lookup).1, inactive] at activeLookup
          cases activeLookup
    · rw [rest.pending]
      constructor
      · rintro (now | ⟨requestId, lookup, absent⟩)
        · cases now
          exact .inr ⟨_, found, inactive⟩
        · exact .inr ⟨requestId, (Table.lookup_erase_eq_some lookup).2, absent⟩
      · rintro (earlier | ⟨requestId, lookup, absent⟩)
        · rw [settled] at earlier
          cases earlier
        · obtain ⟨rfl, rfl⟩ := alone lookup
          exact .inl rfl

theorem restoreChain_ok {fuel : ℕ} {commits : Table CommitRecordV2}
    {journal final : Journal} (restored : restoreChain p disk active fuel commits journal = .ok final)
    (count : commits.entries.length = fuel)
    (keyed : ∀ requestId commit, commits.lookup requestId = some commit → commit.request.core.requestId = requestId)
    (fresh : ∀ requestId commit, commits.lookup requestId = some commit → journal.completions.lookup requestId = none) :
    ChainRestored p disk active commits journal final := by
  induction fuel generalizing commits journal with
  | zero =>
    cases restored
    have empty : ∀ requestId commit, commits.lookup requestId ≠ some commit := by
      intro requestId commit lookup
      rw [Table.lookup_of_entries_nil (List.length_eq_zero_iff.mp count)] at lookup
      cases lookup
    exact ⟨rfl, fun requestId commit lookup => absurd lookup (empty requestId commit),
      fun requestId commit _ lookup => absurd lookup (empty requestId commit), by simp [empty], by simp [empty]⟩
  | succ fuel ih =>
    rw [restoreChain] at restored
    split at restored
    · rename_i requestId commit single
      rw [bind_eq_ok_iff] at restored
      obtain ⟨after, step, restored⟩ := restored
      have member : (⟨requestId, commit⟩ : Σ _ : String, CommitRecordV2) ∈
          commits.entries.filter fun entry => journal.matchesCurrentParent p entry.2.request := by
        rw [single]
        exact List.mem_singleton_self _
      have found : commits.lookup requestId = some commit := Table.mem_entries_iff.mp (List.mem_filter.mp member).1
      obtain rfl := keyed requestId commit found
      have unseen := fresh _ commit found
      refine ChainRestored.cons found unseen step (ih restored ?_ ?_ ?_)
      · have shorter := Table.length_erase found
        lia
      · intro requestId other lookup
        exact keyed requestId other (Table.lookup_erase_eq_some lookup).2
      · intro requestId other lookup
        obtain ⟨different, lookup⟩ := Table.lookup_erase_eq_some lookup
        have before := fresh requestId other lookup
        obtain ⟨_, ⟨_, _, _, _, applied⟩ | ⟨_, _, _, rfl⟩⟩ := restoreCommit_ok step
        · obtain ⟨_, ⟨_, rfl⟩ | ⟨_, _, rfl⟩⟩ := applyActive_ok applied
          · exact before
          · exact (AList.lookup_insert_ne different).trans before
        · exact before
    · cases restored

/-- What the first restore pass has read and verified. -/
structure UncommittedRestored (p : Primitives) (disk : Disk) (journal after : Journal) : Prop where
  files : ∀ directory ∈ [Slot.tombstones, .reservations, .prepared, .staged, .acks],
    ∃ records, readSlots p journal disk directory = .ok records
  only : after = { journal with
    reservations := after.reservations
    prepared := after.prepared
    staged := after.staged
    acknowledgements := after.acknowledgements
    tombstones := after.tombstones }
  tombstones : ∀ requestId record, after.tombstones.lookup requestId = some record ↔
    disk.Holds p .tombstones requestId record
  acknowledgements : ∀ requestId record, after.acknowledgements.lookup requestId = some record ↔
    disk.Holds p .acks requestId record
  reservations : ∀ requestId record, after.reservations.lookup requestId = some record ↔
    after.tombstones.lookup requestId = none ∧ disk.Holds p .reservations requestId record
  prepared : ∀ requestId record, after.prepared.lookup requestId = some record ↔
    after.tombstones.lookup requestId = none ∧ disk.Holds p .prepared requestId record
  staged : ∀ requestId record, after.staged.lookup requestId = some record ↔
    after.tombstones.lookup requestId = none ∧ disk.Holds p .staged requestId record
  reservationsValid : ∀ requestId record, after.reservations.lookup requestId = some record →
    record.request.verifyHistorical p journal.session.core journal.key = .ok ()
  preparedValid : ∀ requestId record, after.prepared.lookup requestId = some record →
    restorePrepared p after ⟨requestId, record⟩ = .ok ()
  stagedValid : ∀ requestId record, after.staged.lookup requestId = some record →
    restoreStaged p after disk ⟨requestId, record⟩ = .ok ()

/-- A table without the requests of another one. -/
private theorem lookup_retain_absent (barred : Table β) (table : Table α) (requestId : String) (value : α) :
    (Table.retain (fun requestId => !(barred.lookup requestId).isSome) table).lookup requestId = some value ↔
      barred.lookup requestId = none ∧ table.lookup requestId = some value := by
  rw [Table.lookup_retain]
  cases barred.lookup requestId <;> simp

theorem restoreUncommitted_ok
    (restored : restoreUncommitted p journal disk = .ok after) : UncommittedRestored p disk journal after := by
  simp only [restoreUncommitted, bind_eq_ok_iff] at restored
  obtain ⟨tombstones, tombstonesRead, reservations, reservationsRead, prepared, preparedRead, staged, stagedRead,
    acks, acksRead, _, reservationsValid, _, preparedValid, _, stagedValid, built⟩ := restored
  cases built
  refine {
    files := ?_
    only := rfl
    tombstones := fun requestId record => readSlots_lookup tombstonesRead
    acknowledgements := fun requestId record => readSlots_lookup acksRead
    reservations := fun requestId record =>
      (lookup_retain_absent ..).trans (and_congr_right fun _ => readSlots_lookup reservationsRead)
    prepared := fun requestId record =>
      (lookup_retain_absent ..).trans (and_congr_right fun _ => readSlots_lookup preparedRead)
    staged := fun requestId record =>
      (lookup_retain_absent ..).trans (and_congr_right fun _ => readSlots_lookup stagedRead)
    reservationsValid := fun requestId record => Table.forM_entries_eq_ok_iff.mp reservationsValid requestId record
    preparedValid := fun requestId record => Table.forM_entries_eq_ok_iff.mp preparedValid requestId record
    stagedValid := fun requestId record => Table.forM_entries_eq_ok_iff.mp stagedValid requestId record }
  simp only [List.mem_cons, List.not_mem_nil, or_false]
  rintro directory (rfl | rfl | rfl | rfl | rfl)
  · exact ⟨_, tombstonesRead⟩
  · exact ⟨_, reservationsRead⟩
  · exact ⟨_, preparedRead⟩
  · exact ⟨_, stagedRead⟩
  · exact ⟨_, acksRead⟩

/-- The journal that a successful `open` answers, in terms of the files. -/
structure Opened (p : Primitives) (disk : Disk) (key : MacKey) (journal : Journal) : Prop where
  key_eq : journal.key = key
  session_eq : journal.session = disk.session
  sessionRecord : journal.sessionRecordSha256 = disk.session.recordDigest p
  sessionVerified : ∃ expectedKeyId minimumEpoch,
    disk.session.verifyHistorical p key expectedKeyId minimumEpoch = .ok ()
  files : ∀ (directory : Slot) stem file, (disk.slots directory).lookup stem = some file →
    ∃ envelope : JournalEnvelopeV2 directory.Record, file = .whole envelope ∧
      slotStem p (directory.requestId envelope.payload) = stem
  tombstones : ∀ requestId record, journal.tombstones.lookup requestId = some record ↔
    disk.Holds p .tombstones requestId record
  acknowledgements : ∀ requestId record, journal.acknowledgements.lookup requestId = some record ↔
    disk.Holds p .acks requestId record
  reservations : ∀ requestId record, journal.reservations.lookup requestId = some record ↔
    disk.Holds p .reservations requestId record ∧ journal.tombstones.lookup requestId = none ∧
      journal.completions.lookup requestId = none
  prepared : ∀ requestId record, journal.prepared.lookup requestId = some record ↔
    disk.Holds p .prepared requestId record ∧ journal.tombstones.lookup requestId = none ∧
      journal.completions.lookup requestId = none
  staged : ∀ requestId record, journal.staged.lookup requestId = some record ↔
    disk.Holds p .staged requestId record ∧ journal.tombstones.lookup requestId = none ∧
      journal.completions.lookup requestId = none
  reservationValid : ∀ requestId record, disk.Holds p .reservations requestId record →
    journal.tombstones.lookup requestId = none →
    record.request.verifyHistorical p journal.session.core journal.key = .ok ()
  preparedValid : ∀ requestId record, disk.Holds p .prepared requestId record →
    journal.tombstones.lookup requestId = none →
    ∃ reservation, disk.Holds p .reservations requestId reservation ∧
      record.requestIntentSha256 = reservation.request.intentSha256 p ∧
      record.result.verifyAgainst p reservation.request journal.session.core = .ok ()
  stagedValid : ∀ requestId record, disk.Holds p .staged requestId record →
    journal.tombstones.lookup requestId = none →
    ∃ prepared, disk.Holds p .prepared requestId prepared ∧ verifyFragmentCas p disk prepared.result = .ok ()
  commitChecked : ∀ requestId commit, disk.Holds p .commits requestId commit →
    CommitChecked p disk journal.session.core journal.key journal.tombstones commit
  activeCommit : ∀ requestId record, disk.Holds p .active requestId record →
    ∃ commit, disk.Holds p .commits requestId commit
  completions : ∀ requestId result, journal.completions.lookup requestId = some result ↔
    ∃ commit record, disk.Holds p .commits requestId commit ∧ commit.result = result ∧
      disk.Holds p .active requestId record
  pending : ∀ commit, journal.pendingActivation = some commit ↔ ∃ requestId,
    disk.Holds p .commits requestId commit ∧ ∀ record, ¬disk.Holds p .active requestId record
  tombstoneValid : ∀ requestId record, journal.tombstones.lookup requestId = some record →
    ∃ result, journal.completions.lookup requestId = some result ∧ record.resultSha256 = result.recordDigest p

/-- The prepared records that the first pass accepts follow a stored reservation. -/
theorem UncommittedRestored.prepared_follows
    (restored : UncommittedRestored p disk journal after) {record : PreparedRecordV2}
    (held : disk.Holds p .prepared requestId record) (unretired : after.tombstones.lookup requestId = none) :
    ∃ reservation, disk.Holds p .reservations requestId reservation ∧
      record.requestIntentSha256 = reservation.request.intentSha256 p ∧
      record.result.verifyAgainst p reservation.request after.session.core = .ok () := by
  have valid := restored.preparedValid requestId record ((restored.prepared ..).mpr ⟨unretired, held⟩)
  unfold restorePrepared at valid
  cases found : after.reservations.lookup requestId with
  | none => simp [found] at valid
  | some reservation =>
    simp only [found, check_eq_ok_iff, reject_eq_ok_iff, bne_eq_false_iff_eq] at valid
    exact ⟨reservation, ((restored.reservations ..).mp found).2, valid.1, valid.2⟩

theorem UncommittedRestored.staged_follows
    (restored : UncommittedRestored p disk journal after) {record : StagedRecordV2}
    (held : disk.Holds p .staged requestId record) (unretired : after.tombstones.lookup requestId = none) :
    ∃ prepared, disk.Holds p .prepared requestId prepared ∧ verifyFragmentCas p disk prepared.result = .ok () := by
  have valid := restored.stagedValid requestId record ((restored.staged ..).mpr ⟨unretired, held⟩)
  unfold restoreStaged at valid
  cases found : after.prepared.lookup requestId with
  | none => simp [found] at valid
  | some prepared =>
    simp only [found, check_eq_ok_iff] at valid
    exact ⟨prepared, ((restored.prepared ..).mp found).2, valid.2.2⟩

/-- Every file of a directory that was read is whole and carries its request's name. -/
theorem readSlots_whole {journal : Journal} {records : Table directory.Record}
    (read : readSlots p journal disk directory = .ok records) {stem : String} {file : SlotFile directory.Record}
    (found : (disk.slots directory).lookup stem = some file) :
    ∃ envelope : JournalEnvelopeV2 directory.Record, file = .whole envelope ∧
      slotStem p (directory.requestId envelope.payload) = stem := by
  obtain ⟨record, reads, named⟩ := readSlots_files read found
  obtain ⟨envelope, whole, rfl⟩ := readRecord_ok reads
  exact ⟨envelope, whole, named⟩

theorem openJournal_ok {key : MacKey} {expectedKeyId : String} {minimumEpoch : UInt64}
    {journal : Journal} (opened : openJournal p disk key expectedKeyId minimumEpoch = .ok journal) :
    Opened p disk key journal := by
  rw [openJournal, check_eq_ok_iff, check_eq_ok_iff] at opened
  obtain ⟨_, verified, restored⟩ := opened
  simp only [restoreRecords, bind_eq_ok_iff] at restored
  obtain ⟨uncommitted, first, commits, commitsRead, active, activeRead, _, covered, chained, chain, _, _, _,
    tombstoneValid, built⟩ := restored
  cases built
  have base := restoreUncommitted_ok first
  have only := base.only
  have keyed : ∀ requestId commit, commits.lookup requestId = some commit →
      commit.request.core.requestId = requestId := by
    intro requestId commit found
    obtain ⟨_, _, _, identified⟩ := (readSlots_lookup commitsRead).mp found
    exact identified
  have blank : uncommitted.completions = ∅ := by
    rw [only]
    rfl
  have settled : uncommitted.pendingActivation = none := by
    rw [only]
    rfl
  have restoredChain := restoreChain_ok chain rfl keyed (by simp [blank])
  have readable : ∀ directory, ∃ records, readSlots p (Journal.fromSession p key disk.session) disk directory =
      .ok records := by
    have same : ∀ directory, readSlots p uncommitted disk directory =
        readSlots p (Journal.fromSession p key disk.session) disk directory := by
      intro directory
      rw [only]
      exact readSlots_congr rfl rfl
    intro directory
    cases directory with
    | commits => exact ⟨commits, same .commits ▸ commitsRead⟩
    | active => exact ⟨active, same .active ▸ activeRead⟩
    | reservations | prepared | staged | acks | tombstones => exact base.files _ (by simp)
  obtain ⟨tokens, height, head, frontier, sampler, completions, pendingActivation, rfl⟩ :
      ∃ tokens height head frontier sampler completions pendingActivation, chained = { uncommitted with
        evaluatedTokens := tokens
        outputHeight := height
        headSha256 := head
        frontier := frontier
        samplerState := sampler
        completions := completions
        pendingActivation := pendingActivation } := ⟨_, _, _, _, _, _, _, restoredChain.only⟩
  have identity : uncommitted.key = key ∧ uncommitted.session = disk.session ∧
      uncommitted.sessionRecordSha256 = disk.session.recordDigest p := by
    rw [only]
    exact ⟨rfl, rfl, rfl⟩
  exact {
    key_eq := identity.1
    session_eq := identity.2.1
    sessionRecord := identity.2.2
    sessionVerified := ⟨expectedKeyId, minimumEpoch, verified⟩
    files := fun directory stem file found => by
      obtain ⟨records, read⟩ := readable directory
      exact readSlots_whole read found
    tombstones := base.tombstones
    acknowledgements := base.acknowledgements
    reservations := fun requestId record => by
      refine (lookup_retain_absent ..).trans ?_
      rw [base.reservations, and_comm, and_assoc, and_left_comm]
      rfl
    prepared := fun requestId record => by
      refine (lookup_retain_absent ..).trans ?_
      rw [base.prepared, and_comm, and_assoc, and_left_comm]
      rfl
    staged := fun requestId record => by
      refine (lookup_retain_absent ..).trans ?_
      rw [base.staged, and_comm, and_assoc, and_left_comm]
      rfl
    reservationValid := fun requestId record held unretired => by
      have valid := base.reservationsValid requestId record ((base.reservations ..).mpr ⟨unretired, held⟩)
      change record.request.verifyHistorical p uncommitted.session.core uncommitted.key = .ok ()
      rw [identity.1, identity.2.1]
      exact valid
    preparedValid := fun requestId record held unretired => base.prepared_follows held unretired
    stagedValid := fun requestId record held unretired => base.staged_follows held unretired
    commitChecked := fun requestId commit held =>
      restoredChain.checked requestId commit ((readSlots_lookup commitsRead).mpr held)
    activeCommit := fun requestId record held => by
      have found := (readSlots_lookup activeRead).mpr held
      rw [reject_eq_ok_iff, Table.any_entries_eq_false] at covered
      have known := covered requestId record found
      obtain ⟨commit, stored⟩ : ∃ commit, commits.lookup requestId = some commit := by
        rw [← Option.isSome_iff_exists]
        simpa using known
      exact ⟨commit, (readSlots_lookup commitsRead).mp stored⟩
    completions := fun requestId result => by
      refine (restoredChain.completions requestId result).trans ?_
      simp only [blank, AList.lookup_empty, reduceCtorEq, false_or, readSlots_lookup commitsRead,
        readSlots_lookup activeRead]
    pending := fun commit => by
      refine (restoredChain.pending commit).trans ?_
      simp only [settled, reduceCtorEq, false_or, readSlots_lookup commitsRead, Option.eq_none_iff_forall_ne_some,
        readSlots_lookup activeRead, ne_eq]
    tombstoneValid := fun requestId record found => by
      have valid := Table.forM_entries_eq_ok_iff.mp tombstoneValid requestId record found
      unfold restoreTombstone at valid
      cases completed : completions.lookup requestId with
      | none => simp [Journal.dropCompleted, completed] at valid
      | some completion =>
        refine ⟨completion, completed, ?_⟩
        simpa [Journal.dropCompleted, completed] using valid }

end Muser.Verifier
