import Muser.AuthoritativeVerifier.Opened

/-! # Records that stay on file

Commit, active and tombstone files are never unlinked, and no file is ever replaced. What the
journal remembers of a completion or of a pending commit is therefore on file, at every point of
every history, across restarts and interrupted writes.
-/

namespace Muser.Verifier

variable {p : Primitives} {scope : Scope}

/-- Every file of a directory is still there, unchanged. -/
def Disk.Keeps (before after : Disk) (directory : Slot) : Prop :=
  ∀ stem file, (before.slots directory).lookup stem = some file → (after.slots directory).lookup stem = some file

variable {directory : Slot} {requestId : String} {world : World}

theorem Disk.Holds.mono {before after : Disk} {record : directory.Record}
    (held : before.Holds p directory requestId record) (keeps : before.Keeps after directory) :
    after.Holds p directory requestId record := by
  obtain ⟨envelope, stored, payload, identified⟩ := held
  exact ⟨envelope, keeps _ _ stored, payload, identified⟩

/-- A new file leaves every other file in place. -/
theorem World.keeps_placeSlot
    (absent : world.file p directory requestId = none) (file : SlotFile directory.Record) (other : Slot) :
    world.disk.Keeps (world.placeSlot directory (slotStem p requestId) file).disk other := by
  intro stem stored found
  by_cases same : other = directory
  · subst same
    rw [World.placeSlot_slots_self, Table.lookup_insert_eq, if_neg, found]
    rintro rfl
    rw [World.file, found] at absent
    cases absent
  · rw [World.placeSlot_slots_of_ne _ _ _ same, found]

theorem World.keeps_putSlot {record : directory.Record}
    (other : Slot) : world.disk.Keeps (world.putSlot p directory requestId record).disk other := by
  cases found : world.file p directory requestId with
  | none =>
    rw [World.putSlot, found]
    exact World.keeps_placeSlot found _ other
  | some file =>
    rw [World.putSlot, found]
    exact fun _ _ stored => stored

variable {tearing : Prop} {events : List (Event p)} {start finish : World}

/-- Only a retirement unlinks files, and only in the directories it empties. -/
theorem Micro.keeps {world after : World} (step : Micro p scope tearing world after)
    (kept : directory ∉ retiredSlots) : world.disk.Keeps after.disk directory := by
  cases step with
  | record admits free => exact World.keeps_putSlot directory
  | tear allowed absent | stray allowed admits absent | strayActive allowed pending absent
  | activate pending receiptValid absent applied | jam pending absent refused =>
    exact World.keeps_placeSlot absent _ directory
  | unlinkSlot retiring retired =>
    intro stem file found
    rw [World.setFiles, Disk.setSlots_slots_of_ne, found]
    rintro rfl
    exact kept retired
  | reactivate | display | payload | unlinkFragment | forget => exact fun _ _ found => found

/-- Commit, active and tombstone files outlive every history. -/
theorem run_keeps (ran : run events start = some finish)
    (kept : directory ∉ retiredSlots) : start.disk.Keeps finish.disk directory := by
  refine @run_invariant p events (fun world => start.disk.Keeps world.disk directory) start finish ?_
    (fun _ _ found => found) ran
  intro event _ world after held stepped stem file found
  cases event with
  | call operation faults =>
    cases stepped
    exact @Path.invariant p _ _ (fun later => world.disk.Keeps later.disk directory)
      (fun _ _ earlier step _ _ stored => step.keeps kept _ _ (earlier _ _ stored)) _ _ (fun _ _ stored => stored)
      (operation.exec_path_own faults world) stem file (held stem file found)
  | reopen expectedKeyId minimumEpoch =>
    obtain ⟨journal, -, rfl⟩ := Event.step_reopen stepped
    exact held stem file found

/-- A file that has just been placed. -/
theorem World.holds_placeSlot {record : directory.Record} (identified : directory.requestId record = requestId) :
    (world.placeSlot directory (slotStem p requestId) (.whole (sealed p world.journal directory record))).disk.Holds p
      directory requestId record := by
  refine ⟨sealed p world.journal directory record, ?_, rfl, identified⟩
  rw [World.placeSlot_slots_self, Table.lookup_insert_eq, if_pos rfl]

/-- After a successful write the record is on file. -/
theorem World.holds_putSlot {record : directory.Record}
    (free : world.Free p directory requestId record) (identified : directory.requestId record = requestId) :
    (world.putSlot p directory requestId record).disk.Holds p directory requestId record := by
  rcases free with absent | present
  · rw [World.putSlot, absent]
    exact World.holds_placeSlot identified
  · rw [World.putSlot, present]
    exact ⟨_, present, rfl, identified⟩

/-- Every record that is stored carries the request it is filed under. -/
theorem Admits.requestId_eq {record : directory.Record}
    (admits : Admits p scope world directory requestId record) : directory.requestId record = requestId := by
  cases admits with
  | reservation passed checked => rfl
  | prepared answered checked =>
    have admitted := (preparedCheck_ok checked).1
    exact (AuthenticatedResultV2.verifyAgainst_answers admitted.verified).requestId
  | staged passed checked stored receiptValid => rfl
  | commit passed settled checked => exact congrArg (·.core.requestId) (commitCheck_inr checked).request_eq
  | ack checked =>
    obtain ⟨_, _, _, rfl⟩ := ackCheck_some checked
    rfl
  | tombstone checked =>
    rcases (retireCheck_cases checked).2 with ⟨absurd, _⟩ | ⟨same, _⟩
    · cases absurd
    · cases same
      rfl

/-- What the journal remembers of commits and retirements is on file. -/
structure World.Filed (p : Primitives) (world : World) : Prop where
  tombstones : ∀ requestId record, world.journal.tombstones.lookup requestId = some record →
    record.requestId = requestId ∧ world.disk.Holds p .tombstones requestId record
  pending : ∀ commit, world.journal.pendingActivation = some commit →
    world.journal.completions.lookup commit.request.core.requestId = none ∧
      world.disk.Holds p .commits commit.request.core.requestId commit
  completed : ∀ requestId result, world.journal.completions.lookup requestId = some result →
    ∃ commit record, world.disk.Holds p .commits requestId commit ∧ commit.result = result ∧
      world.disk.Holds p .active requestId record

namespace World.Filed

/-- Steps that leave the three tables alone. -/
theorem frame {world after : World} (filed : world.Filed p)
    (tombstones : after.journal.tombstones = world.journal.tombstones)
    (pending : after.journal.pendingActivation = world.journal.pendingActivation)
    (completions : after.journal.completions = world.journal.completions)
    (keeps : ∀ directory ∉ retiredSlots, world.disk.Keeps after.disk directory) : after.Filed p where
  tombstones requestId record found := by
    rw [tombstones] at found
    obtain ⟨identified, held⟩ := filed.tombstones requestId record found
    exact ⟨identified, held.mono (keeps .tombstones (by decide))⟩
  pending commit found := by
    rw [pending] at found
    obtain ⟨notCompleted, held⟩ := filed.pending commit found
    exact ⟨completions ▸ notCompleted, held.mono (keeps .commits (by decide))⟩
  completed requestId result found := by
    rw [completions] at found
    obtain ⟨commit, record, committed, results, active⟩ := filed.completed requestId result found
    exact ⟨commit, record, committed.mono (keeps .commits (by decide)), results,
      active.mono (keeps .active (by decide))⟩

/-- A new file, which the memory does not know yet. -/
theorem placeSlot {world : World} (filed : world.Filed p) {directory : Slot} {requestId : String}
    (absent : world.file p directory requestId = none) (file : SlotFile directory.Record) :
    (world.placeSlot directory (slotStem p requestId) file).Filed p :=
  filed.frame rfl rfl rfl fun other _ => World.keeps_placeSlot absent file other

/-- The pending commit is activated, with its active record on file. -/
theorem applied {world stored : World} (filed : world.Filed p) {commit : CommitRecordV2} {journal : Journal}
    (keeps : ∀ directory ∉ retiredSlots, world.disk.Keeps stored.disk directory)
    (pending : world.journal.pendingActivation = some commit)
    (active : ∃ record, stored.disk.Holds p .active commit.request.core.requestId record)
    (applied : world.journal.applyActive p commit.request commit.result = .ok journal) :
    (stored.applied commit journal).Filed p := by
  obtain ⟨notCompleted, committed⟩ := filed.pending commit pending
  obtain rfl := applyActive_fresh notCompleted applied
  refine ⟨fun requestId record found => ?_, fun other found => ?_, fun requestId result found => ?_⟩
  · obtain ⟨identified, held⟩ := filed.tombstones requestId record found
    exact ⟨identified, held.mono (keeps .tombstones (by decide))⟩
  · cases found
  · change (world.journal.completions.insert _ _).lookup requestId = some result at found
    rcases Table.lookup_insert_cases found with ⟨same, rfl⟩ | ⟨-, found⟩
    · obtain ⟨record, held⟩ := active
      exact ⟨commit, record, same ▸ committed.mono (keeps .commits (by decide)), rfl, same ▸ held⟩
    · obtain ⟨other, record, committed, results, active⟩ := filed.completed requestId result found
      exact ⟨other, record, committed.mono (keeps .commits (by decide)), results,
        active.mono (keeps .active (by decide))⟩

/-- A record is stored and remembered. -/
theorem record {world : World} (filed : world.Filed p) {directory : Slot} {requestId : String}
    {record : directory.Record} (admits : Admits p scope world directory requestId record)
    (free : world.Free p directory requestId record) :
    ((world.putSlot p directory requestId record).setJournal (·.memorize directory requestId record)).Filed p := by
  have identified := admits.requestId_eq
  have stored : (world.putSlot p directory requestId record).Filed p :=
    filed.frame (by rw [putSlot_journal]) (by rw [putSlot_journal]) (by rw [putSlot_journal])
      (fun other _ => World.keeps_putSlot other)
  cases admits with
  | commit passed settled checked =>
    have admitted := commitCheck_inr checked
    obtain rfl := admitted.request_eq
    refine ⟨stored.tombstones, fun other found => ?_, stored.completed⟩
    cases found
    refine ⟨?_, World.holds_putSlot free rfl⟩
    change (World.putSlot ..).journal.completions.lookup _ = none
    rw [putSlot_journal]
    exact admitted.notCompleted
  | @tombstone requestId nowUnixMs retention result tombstone checked =>
    refine ⟨fun other found lookup => ?_, stored.pending, stored.completed⟩
    change ((World.putSlot ..).journal.tombstones.insert _ _).lookup other = some found at lookup
    rcases Table.lookup_insert_cases lookup with ⟨rfl, rfl⟩ | ⟨-, lookup⟩
    · exact ⟨identified, World.holds_putSlot free identified⟩
    · exact stored.tombstones other found lookup
  | reservation | prepared | staged | ack => exact ⟨stored.tombstones, stored.pending, stored.completed⟩

end World.Filed

theorem Micro.filed {world after : World} (filed : world.Filed p)
    (step : Micro p scope tearing world after) : after.Filed p := by
  have keeps : ∀ directory ∉ retiredSlots, world.disk.Keeps after.disk directory := fun _ kept => step.keeps kept
  cases step with
  | record admits free => exact filed.record admits free
  | @activate commit nowUnixMs _ pending receiptValid absent applied =>
    refine filed.applied (fun directory _ => World.keeps_placeSlot absent _ directory) pending ?_ applied
    exact ⟨activeRecord p commit nowUnixMs, World.holds_placeSlot rfl⟩
  | reactivate pending receiptValid agrees applied =>
    obtain ⟨envelope, existing, found, decoded, identified, _⟩ := agrees
    refine filed.applied (fun directory _ => fun _ _ stored => stored) pending
      ⟨existing, envelope, found, ?_, identified⟩ applied
    simp only [decodeJournal, check_eq_ok_iff] at decoded
    exact Except.ok.inj decoded.2.2.2
  | @forget requestId result retiring unlinked =>
    refine ⟨filed.tombstones, fun commit found => ?_, fun other result found =>
      filed.completed other result (Table.lookup_erase_eq_some found).2⟩
    obtain ⟨notCompleted, held⟩ := filed.pending commit found
    refine ⟨?_, held⟩
    change (world.journal.completions.erase requestId).lookup _ = none
    rw [Table.lookup_erase_eq, notCompleted, ite_self]
  | tear | stray | strayActive | jam | display | payload | unlinkFragment | unlinkSlot =>
    exact filed.frame rfl rfl rfl keeps

/-- A reopened journal remembers what is on file. -/
theorem Opened.filed {journal : Journal} (opened : Opened p world.disk world.journal.key journal) :
    World.Filed p { world with journal } where
  tombstones requestId record found := by
    have held := (opened.tombstones requestId record).mp found
    obtain ⟨_, _, _, identified⟩ := id held
    exact ⟨identified, held⟩
  pending commit found := by
    obtain ⟨requestId, held, inactive⟩ := (opened.pending commit).mp found
    obtain ⟨envelope, stored, payload, rfl⟩ := held
    refine ⟨?_, envelope, stored, payload, rfl⟩
    rw [Option.eq_none_iff_forall_ne_some]
    intro result completed
    obtain ⟨_, record, _, _, active⟩ := (opened.completions _ result).mp completed
    exact inactive record active
  completed requestId result found := (opened.completions requestId result).mp found

theorem World.Filed.step {world after : World} (filed : world.Filed p) {event : Event p}
    (stepped : event.step world = some after) : after.Filed p := by
  cases event with
  | call operation faults =>
    cases stepped
    have path := operation.exec_path_own faults world
    exact Path.invariant (fun _ _ held step => step.filed held) filed path
  | reopen expectedKeyId minimumEpoch =>
    obtain ⟨journal, opened, rfl⟩ := Event.step_reopen stepped
    exact (openJournal_ok opened).filed

theorem filed_create (session : AuthenticatedSessionV2) (key : MacKey) :
    World.Filed p ⟨Journal.fromSession p key session, Disk.fresh session, [], [], []⟩ where
  tombstones := by simp [Journal.fromSession]
  pending := by simp [Journal.fromSession]
  completed := by simp [Journal.fromSession]

theorem run_filed (initial : start.Filed p) (ran : run events start = some finish) : finish.Filed p :=
  run_invariant (fun _ _ _ _ filed stepped => filed.step stepped) initial ran

end Muser.Verifier
