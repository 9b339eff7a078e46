import Muser.AuthoritativeVerifier.Chain
import Muser.AuthoritativeVerifier.Filed

/-! # The parent of the next round

Whatever a journal went through, failures and restarts included, its transcript, height, head, frontier
and sampler state keep the bounds of the session: every commit that was applied had a round of the
session behind it. After a restart this is so because the restore loop verifies each commit again.
-/

namespace Muser.Verifier

variable {p : Primitives} {scope : Scope} {session : SessionCoreV2}

/-- A parent that a round of the session can name. -/
structure Parent.Steady (session : SessionCoreV2) (parent : Parent) : Prop where
  sound : parent.Sound session
  sampler : parent.samplerState.validateFor session.couplingPolicy = .ok ()
  head : isDigest parent.headSha256 = true

theorem SessionCoreV2.Valid.genesis_steady (valid : session.Valid p) : (Parent.genesis session).Steady session := by
  refine ⟨valid.genesis_sound, valid.sampler, ?_⟩
  change isDigest session.genesisHeadSha256 = true
  rw [valid.genesisDigest]
  exact p.sha256Hex_isDigest _

variable {commit : CommitRecordV2} {disk : Disk} {expectedKeyId : String} {minimumEpoch : UInt64} {journal : Journal}

theorem Link.advance_steady {parent : Parent} (link : Link p session parent commit) :
    (parent.advance commit.result).Steady session := by
  refine ⟨link.advance_sound, link.answers.sampler, ?_⟩
  change isDigest commit.result.core.newHeadSha256 = true
  rw [link.answers.newHead]
  exact p.sha256Hex_isDigest _

/-- A commit that is applied leads from one steady parent to the next. -/
theorem applyActive_steady {journal after : Journal}
    (steady : journal.parent.Steady journal.session.core)
    (historical : commit.request.core.Historical p journal.session.core)
    (applied : journal.applyActive p commit.request commit.result = .ok after) :
    after.session = journal.session ∧ after.parent.Steady journal.session.core := by
  obtain ⟨verified, ⟨_, rfl⟩ | ⟨_, accepts, rfl⟩⟩ := applyActive_ok applied
  · exact ⟨rfl, steady⟩
  · exact ⟨rfl, Link.advance_steady ⟨accepts, historical, AuthenticatedResultV2.verifyAgainst_answers verified⟩⟩

/-! ## The invariant -/

/-- The journal stands at a steady parent, and what it has still to apply belongs to rounds of the session. -/
structure World.Current (p : Primitives) (scope : Scope) (session : AuthenticatedSessionV2) (world : World) : Prop where
  session_eq : world.journal.session = session
  disk_eq : world.disk.session = session
  record_eq : world.journal.sessionRecordSha256 = session.recordDigest p
  parent : world.journal.parent.Steady session.core
  reservations : ∀ requestId record, world.journal.reservations.lookup requestId = some record →
    record.request ∈ scope.reserved ∧ record.request.core.Historical p session.core
  files : ∀ stem envelope, (world.disk.slots .reservations).lookup stem = some (.whole envelope) →
    ReservationRecordV2.request envelope.payload ∈ scope.reserved
  prepared : ∀ requestId record, world.journal.prepared.lookup requestId = some record →
    ∃ original ∈ scope.reserved, original.core.Historical p session.core ∧
      record.requestIntentSha256 = original.intentSha256 p
  pending : ∀ commit, world.journal.pendingActivation = some commit → commit.request.core.Historical p session.core

/-- A reservation that is written is one that was asked for. -/
def Asked (scope : Scope) : (directory : Slot) → directory.Record → Prop
  | .reservations, record => record.request ∈ scope.reserved
  | _, _ => True

namespace World.Current

variable {session : AuthenticatedSessionV2}

/-- What happens on disk is of no matter as long as no other reservation becomes whole. -/
theorem frame {world after : World} (current : world.Current p scope session) (journals : after.journal = world.journal)
    (sessions : after.disk.session = world.disk.session)
    (files : ∀ stem envelope, (after.disk.slots .reservations).lookup stem = some (.whole envelope) →
      ReservationRecordV2.request envelope.payload ∈ scope.reserved) : after.Current p scope session where
  session_eq := journals ▸ current.session_eq
  disk_eq := sessions.trans current.disk_eq
  record_eq := journals ▸ current.record_eq
  parent := journals ▸ current.parent
  reservations := journals ▸ current.reservations
  files := files
  prepared := journals ▸ current.prepared
  pending := journals ▸ current.pending

theorem tear {world : World} (current : world.Current p scope session) (directory : Slot) (stem : String) (bytes : Bytes) :
    (world.placeSlot directory stem (.torn bytes)).Current p scope session := by
  exact current.frame rfl rfl fun other envelope found => current.files other envelope (World.whole_of_torn found)

theorem place {world : World} (current : world.Current p scope session) {directory : Slot} {stem : String}
    {record : directory.Record} (asked : Asked scope directory record) :
    (world.placeSlot directory stem (.whole (sealed p world.journal directory record))).Current p scope session := by
  refine current.frame rfl rfl fun other envelope found => ?_
  rcases World.whole_placeSlot found with old | ⟨_, is⟩
  · exact current.files other envelope old
  · cases is
    exact asked

/-- The commit that is applied belongs to a round of the session. -/
theorem applied {world stored : World} (current : stored.Current p scope session) (same : stored.journal = world.journal)
    {commit : CommitRecordV2} {journal : Journal} (pending : world.journal.pendingActivation = some commit)
    (applied : world.journal.applyActive p commit.request commit.result = .ok journal) :
    (stored.applied commit journal).Current p scope session := by
  have historical := current.pending commit (same ▸ pending)
  obtain ⟨verified, outcome⟩ := applyActive_ok applied
  rw [← same] at outcome
  rcases outcome with ⟨_, rfl⟩ | ⟨_, accepts, rfl⟩
  · exact { current with pending := fun other found => by cases found }
  · rw [← same, current.session_eq] at verified
    exact { current with
      parent := Link.advance_steady ⟨accepts, historical, AuthenticatedResultV2.verifyAgainst_answers verified⟩
      pending := fun other found => by cases found }

/-- What is remembered of a record that was stored. -/
theorem memorize (free : CollisionFree p (scope.texts session.core)) {world : World}
    (current : world.Current p scope session)
    {directory : Slot} {requestId : String} {record : directory.Record}
    (admits : Admits p scope world directory requestId record) :
    Asked scope directory record ∧ (world.setJournal (·.memorize directory requestId record)).Current p scope session := by
  cases admits with
  | @reservation request fence nowUnixMs passed checked =>
    refine ⟨passed, { current with reservations := fun other found lookup => ?_ }⟩
    rcases Table.lookup_insert_cases lookup with ⟨rfl, rfl⟩ | ⟨_, lookup⟩
    · have verified := (reserveCheck_none checked).verified
      rw [current.session_eq] at verified
      exact ⟨passed, AuthenticatedRoundV2.verifyHistorical_historical verified⟩
    · exact current.reservations other found lookup
  | @prepared request result fence nowUnixMs answered checked =>
    refine ⟨trivial, { current with prepared := fun other found lookup => ?_ }⟩
    rcases Table.lookup_insert_cases lookup with ⟨rfl, rfl⟩ | ⟨_, lookup⟩
    · obtain ⟨reservation, reserved, rfl⟩ := (preparedCheck_ok checked).1.reserved
      obtain ⟨asked, historical⟩ := current.reservations _ _ reserved
      exact ⟨reservation.request, asked, historical, rfl⟩
    · exact current.prepared other found lookup
  | @commit request fence nowUnixMs commit passed settled checked =>
    have admitted := commitCheck_inr checked
    obtain rfl := admitted.request_eq
    obtain ⟨record, prepared, -, intent⟩ := admitted.prepared
    obtain ⟨original, asked, historical, intent'⟩ := current.prepared _ _ prepared
    have same : original.core = commit.request.core := core_eq_of_intent_eq free (List.mem_append_left _ asked)
      (List.mem_append_right _ passed) (intent'.symm.trans intent)
    refine ⟨trivial, { current with pending := fun other found => ?_ }⟩
    cases found
    exact same ▸ historical
  | staged | ack | tombstone => exact ⟨trivial, { current with }⟩

theorem forget {world : World} (current : world.Current p scope session) (requestId : String) :
    (world.setJournal (·.forget requestId)).Current p scope session :=
  { current with
    reservations := fun other record found => current.reservations other record (Table.lookup_erase_eq_some found).2
    prepared := fun other record found => current.prepared other record (Table.lookup_erase_eq_some found).2 }

end World.Current

theorem Micro.current {session : AuthenticatedSessionV2} {tearing : Prop} (free : CollisionFree p (scope.texts session.core))
    {world after : World} (current : world.Current p scope session) (step : Micro p scope tearing world after) :
    after.Current p scope session := by
  cases step with
  | tear => exact current.tear ..
  | @stray directory requestId record allowed admits absent => exact current.place (current.memorize free admits).1
  | strayActive | jam => exact @World.Current.place p _ _ _ current .active _ _ trivial
  | @record directory requestId record admits freeSlot =>
    obtain ⟨asked, remembered⟩ := current.memorize free admits
    have stored : (world.putSlot p directory requestId record).disk.session = world.disk.session ∧
        ∀ stem envelope, ((world.putSlot p directory requestId record).disk.slots .reservations).lookup stem =
          some (.whole envelope) → ReservationRecordV2.request envelope.payload ∈ scope.reserved := by
      rw [World.putSlot]
      split
      · exact ⟨rfl, (@World.Current.place p _ _ _ current directory (slotStem p requestId) record asked).files⟩
      · exact ⟨rfl, current.files⟩
    refine remembered.frame ?_ stored.1 stored.2
    change (Journal.memorize (world.putSlot p directory requestId record).journal directory requestId record) = _
    rw [World.putSlot_journal]
    rfl
  | @activate commit nowUnixMs journal pending receiptValid absent applied =>
    have placed := @World.Current.place p _ _ _ current .active (slotStem p commit.request.core.requestId)
      (activeRecord p commit nowUnixMs) trivial
    exact placed.applied rfl pending applied
  | reactivate pending receiptValid agrees applied => exact current.applied rfl pending applied
  | @unlinkSlot requestId directory result retiring retired =>
    refine current.frame rfl rfl fun other envelope found => ?_
    by_cases same : Slot.reservations = directory
    · subst same
      rw [World.setFiles, Disk.setSlots_slots_self] at found
      exact current.files other envelope (Table.lookup_erase_eq_some found).2
    · rw [World.setFiles, Disk.setSlots_slots_of_ne _ _ same] at found
      exact current.files other envelope found
  | display | payload | unlinkFragment => exact current.frame rfl rfl current.files
  | forget => exact current.forget _

/-! ## Restarts -/

/-- The restore loop applies commits one by one, each of them verified. -/
theorem restoreChain_steady {active : Table ActiveRecordV2} {count : ℕ} {commits : Table CommitRecordV2}
    {journal final : Journal} (steady : journal.parent.Steady journal.session.core)
    (restored : restoreChain p disk active count commits journal = .ok final) :
    final.session = journal.session ∧ final.parent.Steady journal.session.core := by
  induction count generalizing commits journal with
  | zero =>
    cases restored
    exact ⟨rfl, steady⟩
  | succ count ih =>
    rw [restoreChain] at restored
    split at restored
    · rename_i requestId commit single
      rw [bind_eq_ok_iff] at restored
      obtain ⟨after, step, restored⟩ := restored
      obtain ⟨checked, ⟨_, _, _, _, applied⟩ | ⟨_, _, _, rfl⟩⟩ := restoreCommit_ok step
      · obtain ⟨same, later⟩ := applyActive_steady steady
          (AuthenticatedRoundV2.verifyHistorical_historical checked.verified) applied
        obtain ⟨same', final⟩ := ih (same ▸ later) restored
        exact ⟨same'.trans same, same ▸ final⟩
      · exact @ih _ { journal with pendingActivation := some commit } steady restored
    · cases restored

theorem openJournal_steady {key : MacKey}
    (opened : openJournal p disk key expectedKeyId minimumEpoch = .ok journal) :
    journal.parent.Steady disk.session.core := by
  rw [openJournal, check_eq_ok_iff, check_eq_ok_iff] at opened
  obtain ⟨_, verified, restored⟩ := opened
  simp only [restoreRecords, bind_eq_ok_iff] at restored
  obtain ⟨uncommitted, first, commits, _, active, _, _, _, chained, chain, _, _, _, _, built⟩ := restored
  cases built
  have only := (restoreUncommitted_ok first).only
  have start : uncommitted.session = disk.session ∧ uncommitted.parent = Parent.genesis disk.session.core := by
    rw [only]
    exact ⟨rfl, rfl⟩
  have valid := AuthenticatedSessionV2.verifyHistorical_valid verified
  have steady : uncommitted.parent.Steady uncommitted.session.core := by
    rw [start.2, start.1]
    exact valid.genesis_steady
  obtain ⟨_, final⟩ := restoreChain_steady steady chain
  rw [start.1] at final
  exact final

theorem World.Current.reopen {session : AuthenticatedSessionV2} {world : World} (current : world.Current p scope session)
        (reopened : openJournal p world.disk world.journal.key expectedKeyId minimumEpoch = .ok journal) :
    World.Current p scope session { world with journal } := by
  have opened := openJournal_ok reopened
  have sessions : journal.session = session := opened.session_eq.trans current.disk_eq
  have historical : ∀ {round : AuthenticatedRoundV2}, round.verifyHistorical p journal.session.core journal.key = .ok () →
      round.core.Historical p session.core := by
    intro round verified
    rw [sessions] at verified
    exact AuthenticatedRoundV2.verifyHistorical_historical verified
  have reserved : ∀ requestId record, world.disk.Holds p .reservations requestId record →
      journal.tombstones.lookup requestId = none → record.request ∈ scope.reserved ∧
        record.request.core.Historical p session.core := by
    intro requestId record held unretired
    have verified := opened.reservationValid requestId record held unretired
    obtain ⟨envelope, stored, rfl, -⟩ := held
    exact ⟨current.files _ envelope stored, historical verified⟩
  exact {
    session_eq := sessions
    disk_eq := current.disk_eq
    record_eq := by
      rw [opened.sessionRecord, current.disk_eq]
    parent := by
      have steady := openJournal_steady reopened
      rw [current.disk_eq] at steady
      exact steady
    reservations := fun requestId record found => by
      obtain ⟨held, unretired, -⟩ := (opened.reservations requestId record).mp found
      exact reserved requestId record held unretired
    files := current.files
    prepared := fun requestId record found => by
      obtain ⟨held, unretired, -⟩ := (opened.prepared requestId record).mp found
      obtain ⟨reservation, stored, intent, -⟩ := opened.preparedValid requestId record held unretired
      obtain ⟨asked, historical⟩ := reserved requestId reservation stored unretired
      exact ⟨reservation.request, asked, historical, intent⟩
    pending := fun commit found => by
      obtain ⟨requestId, held, -⟩ := (opened.pending commit).mp found
      exact historical (opened.commitChecked requestId commit held).verified }

theorem World.Current.call {session : AuthenticatedSessionV2} (free : CollisionFree p (scope.texts session.core))
    {call : Call p}
    (reserved : call.reserved ⊆ scope.reserved) (presented : call.presented ⊆ scope.presented)
    (results : call.results ⊆ scope.results) (faults : FileOp → Fault) {world : World}
    (current : world.Current p scope session) : (call.exec faults world).Current p scope session :=
  Path.invariant (fun _ _ held step =>
    step.current free held) current (Call.exec_path reserved presented results faults world)

theorem current_create {session : AuthenticatedSessionV2} (valid : session.core.Valid p) (scope : Scope) (key : MacKey) :
    World.Current p scope session ⟨Journal.fromSession p key session, Disk.fresh session, [], [], []⟩ where
  session_eq := rfl
  disk_eq := rfl
  record_eq := rfl
  parent := valid.genesis_steady
  reservations := by simp [Journal.fromSession]
  files := by simp [Disk.fresh]
  prepared := by simp [Journal.fromSession]
  pending := by simp [Journal.fromSession]

/-- Every history of calls and restarts keeps the invariant. -/
theorem run_current {session : AuthenticatedSessionV2} {events : List (Event p)} {start finish : World}
    (free : CollisionFree p ((scopeOf events).texts session.core)) (initial : start.Current p (scopeOf events) session)
    (ran : run events start = some finish) : finish.Current p (scopeOf events) session := by
  refine run_invariant (fun event member world after current stepped => ?_) initial ran
  cases event with
  | call operation faults =>
    cases stepped
    exact current.call free (fun _ passed => List.mem_flatMap.mpr ⟨_, member, passed⟩)
      (fun _ passed => List.mem_flatMap.mpr ⟨_, member, passed⟩) (fun _ passed =>
        List.mem_flatMap.mpr ⟨_, member, passed⟩) faults
  | reopen expectedKeyId minimumEpoch =>
    obtain ⟨journal, opened, rfl⟩ := Event.step_reopen stepped
    exact current.reopen opened

end Muser.Verifier
