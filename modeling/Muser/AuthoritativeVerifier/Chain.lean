import Muser.AuthoritativeVerifier.Lineage
import Muser.AuthoritativeVerifier.Sample

/-! # The journal keeps one chain

Along every history of calls, however they fail, the activated commits form one lineage from the
genesis state and the journal stands at its end. Everything that is still open, a reservation, a
prepared result or a commit that waits for its activation, belongs to the one child of that end.
-/

namespace Muser.Verifier

variable {p : Primitives} {scope : Scope} {session : SessionCoreV2}

variable {left right : AuthenticatedRoundV2} {world after : World} {commit : CommitRecordV2}

/-- Equal intents of rounds in scope come from equal cores. -/
theorem core_eq_of_intent_eq (free : CollisionFree p (scope.texts session))
    (leftIn : left ∈ scope.rounds) (rightIn : right ∈ scope.rounds)
    (same : left.intentSha256 p = right.intentSha256 p) : left.core = right.core := by
  have known : ∀ round ∈ scope.rounds, canonical round.core ∈ scope.texts session := fun round member => by
    simp only [Scope.texts, List.mem_cons, List.mem_append, List.mem_map]
    exact .inr (.inl (.inl ⟨round, member, rfl⟩))
  exact canonical_injective (free _ (known left leftIn) _ (known right rightIn) same)

/-- A result answers a round through its core alone. -/
theorem AuthenticatedResultV2.Answers.of_core_eq {result : AuthenticatedResultV2}
    (answers : result.Answers p left session) (same : left.core = right.core) : result.Answers p right session := by
  cases left
  cases right
  cases same
  exact ⟨answers.signatureLength, answers.signatureHex, answers.decision, answers.accepted, answers.committed,
    answers.protocol, answers.sessionId, answers.genesis, answers.executor, answers.requestId, answers.intent,
    answers.baseHead, answers.newHeight, answers.frontier, answers.sampler, answers.transcript, answers.descriptors,
    answers.fragments, answers.newHead⟩

/-- A commit that waits for its activation: its round is reserved and not completed. -/
structure Unfinished (p : Primitives) (scope : Scope) (session : SessionCoreV2) (journal : Journal)
    (commit : CommitRecordV2) : Prop where
  notCompleted : journal.completions.lookup commit.request.core.requestId = none
  reserved : ∃ reservation, journal.reservations.lookup commit.request.core.requestId = some reservation ∧
    reservation.request.core = commit.request.core
  answers : commit.result.Answers p commit.request session
  known : commit.result ∈ scope.results

/-- The invariant over the journal in memory, its commit files and the history of activations. -/
structure Linear (p : Primitives) (scope : Scope) (session : SessionCoreV2) (journal : Journal)
    (commits : Table (SlotFile CommitRecordV2)) (activated : List CommitRecordV2) : Prop where
  session_eq : journal.session.core = session
  parent_eq : journal.parent = (Parent.genesis session).after activated
  lineage : Lineage p session (Parent.genesis session) activated
  known : ∀ commit ∈ activated, commit.result ∈ scope.results
  reserved : ∀ requestId reservation, journal.reservations.lookup requestId = some reservation →
    reservation.request.core.requestId = requestId ∧ reservation.request.core.Historical p session ∧
      reservation.request ∈ scope.rounds
  single : ∀ requestId reservation other reservation', journal.reservations.lookup requestId = some reservation →
    journal.reservations.lookup other = some reservation' →
    reservation.request.core.baseHeadSha256 = reservation'.request.core.baseHeadSha256 → requestId = other
  live : ∀ requestId reservation, journal.reservations.lookup requestId = some reservation →
    journal.completions.lookup requestId = none → journal.parent.Accepts p reservation.request
  prepared : ∀ requestId record, journal.prepared.lookup requestId = some record →
    record.result ∈ scope.results ∧ ∃ reservation, journal.reservations.lookup requestId = some reservation ∧
      record.requestIntentSha256 = reservation.request.intentSha256 p ∧
      record.result.Answers p reservation.request session
  pending : ∀ commit, journal.pendingActivation = some commit → Unfinished p scope session journal commit ∧
    ∃ envelope : JournalEnvelopeV2 CommitRecordV2,
      commits.lookup (slotStem p commit.request.core.requestId) = some (.whole envelope) ∧ envelope.payload = commit
  commits : ∀ stem envelope, commits.lookup stem = some (.whole envelope) →
    stem = slotStem p envelope.payload.request.core.requestId ∧
      (envelope.payload ∈ activated ∨ Unfinished p scope session journal envelope.payload)

/-- The invariant of a world. -/
def World.Linear (p : Primitives) (scope : Scope) (session : SessionCoreV2) (world : World) : Prop :=
  Verifier.Linear p scope session world.journal (world.disk.slots .commits) world.activated

namespace Linear

variable {journal : Journal} {commits : Table (SlotFile CommitRecordV2)} {activated : List CommitRecordV2}

variable {request : AuthenticatedRoundV2} {commit : CommitRecordV2}

/-- A new reservation becomes the one child of the current parent. -/
theorem reserve (linear : Linear p scope session journal commits activated)
    (passed : request ∈ scope.rounds) (admitted : ReserveAdmitted p journal request) (nowUnixMs : UInt64) :
    Linear p scope session (journal.memorize .reservations request.core.requestId ⟨request, nowUnixMs⟩) commits
      activated := by
  have kept : ∀ {requestId : String} {reservation : ReservationRecordV2},
      journal.reservations.lookup requestId = some reservation →
      (journal.reservations.insert request.core.requestId ⟨request, nowUnixMs⟩).lookup requestId =
        some reservation := fun found => Table.lookup_insert_fresh admitted.notReserved found
  have unfinished : ∀ commit, Unfinished p scope session journal commit → Unfinished p scope session
      (journal.memorize .reservations request.core.requestId ⟨request, nowUnixMs⟩) commit := by
    rintro commit ⟨notCompleted, ⟨reservation, found, same⟩, answers, known⟩
    exact ⟨notCompleted, ⟨reservation, kept found, same⟩, answers, known⟩
  have historical : request.core.Historical p session :=
    AuthenticatedRoundV2.verifyHistorical_historical (linear.session_eq ▸ admitted.verified)
  -- A reservation with the base head of the new one has its id, by the busy-parent check.
  have busy : ∀ {requestId : String} {reservation : ReservationRecordV2},
      journal.reservations.lookup requestId = some reservation →
      reservation.request.core.baseHeadSha256 = request.core.baseHeadSha256 → requestId = request.core.requestId := by
    intro requestId reservation found same
    rw [← (linear.reserved requestId reservation found).1]
    exact admitted.notBusy requestId reservation found (same.trans admitted.parents.head)
  refine { linear with
    reserved := fun requestId reservation found => ?_
    single := fun requestId reservation other reservation' found found' same => ?_
    live := fun requestId reservation found notCompleted => ?_
    prepared := fun requestId record found => ?_
    pending := fun commit found => ?_
    commits := fun stem envelope found => ?_ }
  · rcases Table.lookup_insert_cases found with ⟨rfl, rfl⟩ | ⟨_, old⟩
    · exact ⟨rfl, historical, passed⟩
    · exact linear.reserved requestId reservation old
  · rcases Table.lookup_insert_cases found with ⟨rfl, rfl⟩ | ⟨_, old⟩
    · rcases Table.lookup_insert_cases found' with ⟨rfl, rfl⟩ | ⟨_, old'⟩
      · rfl
      · exact (busy old' same.symm).symm
    · rcases Table.lookup_insert_cases found' with ⟨rfl, rfl⟩ | ⟨_, old'⟩
      · exact busy old same
      · exact linear.single requestId reservation other reservation' old old' same
  · rcases Table.lookup_insert_cases found with ⟨rfl, rfl⟩ | ⟨_, old⟩
    · exact admitted.parents
    · exact linear.live requestId reservation old notCompleted
  · obtain ⟨answered, reservation, reserved, intent, answers⟩ := linear.prepared requestId record found
    exact ⟨answered, reservation, kept reserved, intent, answers⟩
  · obtain ⟨waiting, stored⟩ := linear.pending commit found
    exact ⟨unfinished commit waiting, stored⟩
  · obtain ⟨named, settled⟩ := linear.commits stem envelope found
    exact ⟨named, settled.imp_right (unfinished _)⟩

/-- A prepared result answers the reserved round. -/
theorem prepare (linear : Linear p scope session journal commits activated)
    {result : AuthenticatedResultV2} (answered : result ∈ scope.results)
    (admitted : PrepareAdmitted p journal request result) (nowUnixMs : UInt64) :
    Linear p scope session (journal.memorize .prepared request.core.requestId
      ⟨request.intentSha256 p, result, nowUnixMs⟩) commits activated := by
  obtain ⟨reservation, reserved, same⟩ := admitted.reserved
  have answers : result.Answers p request session :=
    AuthenticatedResultV2.verifyAgainst_answers (linear.session_eq ▸ admitted.verified)
  refine { linear with
    prepared := fun requestId record found => ?_
    pending := fun commit found => ?_
    commits := fun stem envelope found => ?_ }
  · change (journal.prepared.insert _ _).lookup requestId = some record at found
    rcases Table.lookup_insert_cases found with ⟨requestIds, rfl⟩ | ⟨-, found⟩
    · exact ⟨answered, reservation, requestIds ▸ reserved, by rw [same], same ▸ answers⟩
    · exact linear.prepared requestId record found
  · obtain ⟨⟨notCompleted, reserved, answers, known⟩, stored⟩ := linear.pending commit found
    exact ⟨⟨notCompleted, reserved, answers, known⟩, stored⟩
  · obtain ⟨named, settled⟩ := linear.commits stem envelope found
    exact ⟨named, settled.imp_right fun ⟨notCompleted, reserved, answers, known⟩ =>
      ⟨notCompleted, reserved, answers, known⟩⟩

/-- The commit that `commit_and_activate` is about to write waits for its activation. -/
theorem unfinished_of_admitted (free : CollisionFree p (scope.texts session))
    (linear : Linear p scope session journal commits activated)
    (passed : request ∈ scope.rounds) (admitted : CommitAdmitted p journal request commit) :
    Unfinished p scope session journal commit := by
  obtain ⟨rfl, notCompleted, ⟨record, prepared, results, intents⟩, _, _⟩ := admitted
  obtain ⟨answered, reservation, reserved, intent, answers⟩ := linear.prepared _ record prepared
  have member := (linear.reserved _ reservation reserved).2.2
  have cores : reservation.request.core = commit.request.core :=
    core_eq_of_intent_eq free member passed (intent.symm.trans intents)
  exact ⟨notCompleted, ⟨reservation, reserved, cores⟩, results ▸ answers.of_core_eq cores, results ▸ answered⟩

variable {envelope : JournalEnvelopeV2 CommitRecordV2}

/-- A file joins the directory, where there was none of its name. -/
theorem insertCommit (linear : Linear p scope session journal commits activated) {stem : String}
    {file : SlotFile CommitRecordV2} (absent : commits.lookup stem = none)
    (waits : ∀ stored, file = .whole stored → stem = slotStem p stored.payload.request.core.requestId ∧
      Unfinished p scope session journal stored.payload) :
    Linear p scope session journal (commits.insert stem file) activated := by
  refine { linear with
    pending := fun other found => ?_
    commits := fun stem' stored found => ?_ }
  · obtain ⟨waiting, stored, lookup, payloads⟩ := linear.pending other found
    refine ⟨waiting, stored, ?_, payloads⟩
    rw [Table.lookup_insert_eq, if_neg, lookup]
    intro same
    rw [← same, lookup] at absent
    cases absent
  · rcases Table.lookup_insert_cases found with ⟨same, files⟩ | ⟨-, found⟩
    · exact same ▸ (waits stored files.symm).imp_right .inr
    · exact linear.commits stem' stored found

/-- A stored commit becomes pending. -/
theorem await (linear : Linear p scope session journal commits activated) (payload : envelope.payload = commit)
    (stored : commits.lookup (slotStem p commit.request.core.requestId) = some (.whole envelope))
    (unfinished : Unfinished p scope session journal commit) :
    Linear p scope session { journal with pendingActivation := some commit } commits activated := by
  refine { linear with
    pending := fun other found => ?_
    commits := fun stem stored found => ?_ }
  · cases found
    exact ⟨⟨unfinished.notCompleted, unfinished.reserved, unfinished.answers, unfinished.known⟩, envelope, stored,
      payload⟩
  · obtain ⟨named, settled⟩ := linear.commits stem stored found
    exact ⟨named, settled.imp_right fun ⟨notCompleted, reserved, answers, known⟩ =>
      ⟨notCompleted, reserved, answers, known⟩⟩

/-- The link that an activation adds. -/
theorem link_of_unfinished (linear : Linear p scope session journal commits activated)
    (unfinished : Unfinished p scope session journal commit) :
    Link p session ((Parent.genesis session).after activated) commit := by
  obtain ⟨reservation, reserved, cores⟩ := unfinished.reserved
  have accepts := linear.live _ reservation reserved unfinished.notCompleted
  have historical := (linear.reserved _ reservation reserved).2.1
  exact ⟨linear.parent_eq ▸ accepts.of_core_eq cores, cores ▸ historical, unfinished.answers⟩

/-- The pending commit is activated. -/
theorem activate (linear : Linear p scope session journal commits activated) {commit : CommitRecordV2}
    (pending : journal.pendingActivation = some commit) :
    Linear p scope session { journal.advance commit.request.core.requestId commit.result with pendingActivation := none }
      commits (activated ++ [commit]) := by
  obtain ⟨unfinished, envelope, stored, payload⟩ := linear.pending commit pending
  have link := linear.link_of_unfinished unfinished
  refine { linear with
    parent_eq := ?_
    lineage := lineage_concat.mpr ⟨linear.lineage, link⟩
    known := fun other member => ?_
    live := fun requestId reservation found absent => ?_
    pending := fun other found => by cases found
    commits := fun stem file found => ?_ }
  · rw [Parent.after_concat, ← linear.parent_eq]
    rfl
  · rcases List.mem_append.mp member with earlier | last
    · exact linear.known other earlier
    · rw [List.mem_singleton.mp last]
      exact unfinished.known
  · -- Another open reservation would name the head that the activated commit has left.
    obtain ⟨different, notCompleted⟩ := Table.lookup_insert_eq_none absent
    obtain ⟨own, reserved, cores⟩ := unfinished.reserved
    have accepts := linear.live requestId reservation found notCompleted
    have ownAccepts := linear.live _ own reserved unfinished.notCompleted
    exact absurd (linear.single _ _ _ _ found reserved (accepts.head.trans ownAccepts.head.symm)) different
  · obtain ⟨named, settled⟩ := linear.commits stem file found
    refine ⟨named, ?_⟩
    by_cases same : file.payload.request.core.requestId = commit.request.core.requestId
    · have files : some (SlotFile.whole file) = some (.whole envelope) := by rw [← found, ← stored, named, same]
      cases files
      exact .inl (by simp [payload])
    · rcases settled with earlier | ⟨notCompleted, reserved, answers, known⟩
      · exact .inl (List.mem_append_left _ earlier)
      · refine .inr ⟨?_, reserved, answers, known⟩
        change (journal.completions.insert _ _).lookup _ = none
        rw [Table.lookup_insert_eq, if_neg same, notCompleted]

/-- A retirement forgets a completed request. -/
theorem forget (linear : Linear p scope session journal commits activated) {requestId : String}
    {result : AuthenticatedResultV2} (completed : journal.completions.lookup requestId = some result) :
    Linear p scope session (journal.forget requestId) commits activated := by
  have kept : ∀ {α : Type} {table : Table α} {other : String}, other ≠ requestId →
      (table.erase requestId).lookup other = table.lookup other := AList.lookup_erase_ne
  have unfinished : ∀ commit, Unfinished p scope session journal commit →
      Unfinished p scope session (journal.forget requestId) commit := by
    rintro commit ⟨notCompleted, ⟨reservation, found, same⟩, answers, known⟩
    have different : commit.request.core.requestId ≠ requestId := by
      intro ids
      rw [ids, completed] at notCompleted
      cases notCompleted
    exact ⟨(kept different).trans notCompleted, ⟨reservation, (kept different).trans found, same⟩, answers, known⟩
  refine { linear with
    reserved := fun other reservation found => ?_
    single := fun other reservation third reservation' found found' same => ?_
    live := fun other reservation found absent => ?_
    prepared := fun other record found => ?_
    pending := fun commit found => ?_
    commits := fun stem envelope found => ?_ }
  · exact linear.reserved other reservation (Table.lookup_erase_eq_some found).2
  · exact linear.single other reservation third reservation' (Table.lookup_erase_eq_some found).2
      (Table.lookup_erase_eq_some found').2 same
  · obtain ⟨different, old⟩ := Table.lookup_erase_eq_some found
    exact linear.live other reservation old ((kept different).symm.trans absent)
  · obtain ⟨different, old⟩ := Table.lookup_erase_eq_some found
    obtain ⟨answered, reservation, reserved, intent, answers⟩ := linear.prepared other record old
    exact ⟨answered, reservation, (kept different).trans reserved, intent, answers⟩
  · obtain ⟨waiting, stored⟩ := linear.pending commit found
    exact ⟨unfinished commit waiting, stored⟩
  · obtain ⟨named, settled⟩ := linear.commits stem envelope found
    exact ⟨named, settled.imp_right (unfinished _)⟩

end Linear

/-- The invariant reads the memory, the commit files and the history of activations, nothing else. -/
theorem World.Linear.frame (linear : world.Linear p scope session)
    (journals : after.journal = world.journal) (commits : after.disk.slots .commits = world.disk.slots .commits)
    (activated : after.activated = world.activated) : after.Linear p scope session := by
  unfold World.Linear
  rw [journals, commits, activated]
  exact linear

/-- Placing a file outside the commit directory. -/
theorem World.Linear.placeSlot {world : World} (linear : world.Linear p scope session) {directory : Slot}
    (different : Slot.commits ≠ directory) (stem : String) (file : SlotFile directory.Record) :
    (world.placeSlot directory stem file).Linear p scope session :=
  linear.frame rfl (Disk.setSlots_slots_of_ne _ _ different) rfl

theorem World.Linear.tear {world : World} (linear : world.Linear p scope session) {directory : Slot}
    {requestId : String} (absent : world.file p directory requestId = none) (bytes : Bytes) :
    (world.placeSlot directory (slotStem p requestId) (.torn bytes)).Linear p scope session := by
  by_cases same : directory = .commits
  · subst same
    unfold World.Linear
    rw [World.placeSlot, Disk.setSlots_slots_self]
    exact Verifier.Linear.insertCommit linear absent fun _ same => by cases same
  · exact linear.placeSlot (Ne.symm same) _ _

/-- A complete write that was reported as a failure leaves its file and nothing in memory. -/
theorem World.Linear.stray (free : CollisionFree p (scope.texts session)) {world : World}
    (linear : world.Linear p scope session) {directory : Slot} {requestId : String} {record : directory.Record}
    (admits : Admits p scope world directory requestId record) (absent : world.file p directory requestId = none) :
    (world.placeSlot directory (slotStem p requestId) (.whole (sealed p world.journal directory record))).Linear p
      scope session := by
  cases admits with
  | commit passed settled checked =>
    have admitted := commitCheck_inr checked
    unfold World.Linear
    rw [World.placeSlot, Disk.setSlots_slots_self, ← admitted.request_eq]
    have unfinished := Verifier.Linear.unfinished_of_admitted free linear (List.mem_append_right _ passed) admitted
    refine Verifier.Linear.insertCommit linear (admitted.request_eq ▸ absent) fun stored same => ?_
    cases same
    exact ⟨rfl, unfinished⟩
  | reservation | prepared | staged | ack | tombstone => exact linear.placeSlot (by decide) _ _

/-- A record is stored and remembered. -/
theorem World.Linear.record (free : CollisionFree p (scope.texts session)) {world : World}
    (linear : world.Linear p scope session) {directory : Slot} {requestId : String} {record : directory.Record}
    (admits : Admits p scope world directory requestId record) (unoccupied : world.Free p directory requestId record) :
    ((world.putSlot p directory requestId record).setJournal (·.memorize directory requestId record)).Linear p scope
      session := by
  unfold World.Linear World.setJournal
  cases admits with
  | reservation passed checked =>
    rw [putSlot_journal, putSlot_activated, putSlot_slots_of_ne _ _ _ (by decide)]
    exact Verifier.Linear.reserve linear (List.mem_append_left _ passed) (reserveCheck_none checked) _
  | prepared answered checked =>
    rw [putSlot_journal, putSlot_activated, putSlot_slots_of_ne _ _ _ (by decide)]
    exact Verifier.Linear.prepare linear answered (preparedCheck_ok checked).1 _
  | commit passed settled checked =>
    have admitted := commitCheck_inr checked
    have unfinished := Verifier.Linear.unfinished_of_admitted free linear (List.mem_append_right _ passed) admitted
    rw [putSlot_journal, putSlot_activated]
    obtain rfl := admitted.request_eq
    rcases unoccupied with absent | present
    · have placed := @Verifier.Linear.insertCommit _ _ _ _ _ _ linear _ (.whole (sealed p world.journal .commits _)) absent
        fun stored same => by
          cases same
          exact ⟨rfl, unfinished⟩
      rw [World.putSlot, absent]
      simp only [World.placeSlot, Disk.setSlots_slots_self]
      exact placed.await (sealed_payload (p := p) world.journal .commits _) (by simp) unfinished
    · rw [World.putSlot, present]
      exact Verifier.Linear.await linear (sealed_payload world.journal .commits _) present unfinished
  | staged | ack | tombstone =>
    rw [putSlot_journal, putSlot_activated, putSlot_slots_of_ne _ _ _ (by decide)]
    exact { linear with
      pending := fun commit found => by
        obtain ⟨⟨notCompleted, reserved, answers, known⟩, stored⟩ := linear.pending commit found
        exact ⟨⟨notCompleted, reserved, answers, known⟩, stored⟩
      commits := fun stem envelope found => by
        obtain ⟨named, settled⟩ := linear.commits stem envelope found
        refine ⟨named, settled.imp_right fun unfinished => ?_⟩
        obtain ⟨notCompleted, reserved, answers, known⟩ := unfinished
        exact ⟨notCompleted, reserved, answers, known⟩ }

variable {journal : Journal} {commits : Table (SlotFile CommitRecordV2)} {activated : List CommitRecordV2}

/-- Applying the pending commit advances the chain; the commit cannot have been applied before. -/
theorem World.Linear.applied {world stored : World} (linear : world.Linear p scope session)
    (journals : stored.journal = world.journal) (commits : stored.disk.slots .commits = world.disk.slots .commits)
    (activated : stored.activated = world.activated) (pending : world.journal.pendingActivation = some commit)
    (applied : world.journal.applyActive p commit.request commit.result = .ok journal) :
    (stored.applied commit journal).Linear p scope session := by
  have notCompleted := (linear.pending commit pending).1.notCompleted
  obtain rfl := applyActive_fresh notCompleted applied
  unfold World.Linear World.applied
  simp only [journals, commits, activated, notCompleted]
  exact Verifier.Linear.activate linear pending

/-- Every small step keeps the chain. -/
theorem Micro.linear {tearing : Prop} (free : CollisionFree p (scope.texts session))
    (linear : world.Linear p scope session) (step : Micro p scope tearing world after) :
    after.Linear p scope session := by
  cases step with
  | tear allowed absent => exact linear.tear absent _
  | stray allowed admits absent => exact linear.stray free admits absent
  | record admits unoccupied => exact linear.record free admits unoccupied
  | activate pending receiptValid absent applied =>
    exact linear.applied rfl (Disk.setSlots_slots_of_ne _ _ (by decide)) rfl pending applied
  | reactivate pending receiptValid agrees applied => exact linear.applied rfl rfl rfl pending applied
  | strayActive allowed pending absent | jam pending absent refused => exact linear.placeSlot (by decide) _ _
  | display | payload absent sound | unlinkFragment retiring named unprotected => exact linear.frame rfl rfl rfl
  | unlinkSlot retiring retired =>
    refine linear.frame rfl (Disk.setSlots_slots_of_ne _ _ ?_) rfl
    rintro rfl
    simp [retiredSlots] at retired
  | forget retiring unlinked => exact Verifier.Linear.forget linear retiring.completed

/-- Every call keeps the chain, whether it answers or fails. -/
theorem World.Linear.call (free : CollisionFree p (scope.texts session)) {call : Call p}
    (reserved : call.reserved ⊆ scope.reserved) (presented : call.presented ⊆ scope.presented)
    (results : call.results ⊆ scope.results) (faults : FileOp → Fault)
    {world : World} (linear : world.Linear p scope session) : (call.exec faults world).Linear p scope session :=
  Path.invariant (fun _ _ held step => step.linear free held) linear
    (Call.exec_path reserved presented results faults world)

theorem create_ok {session : AuthenticatedSessionV2} {key : MacKey} {nowUnixMs : UInt64} {expectedKeyId : String}
    {minimumEpoch : UInt64} {start : World}
    (created : create p session key nowUnixMs expectedKeyId minimumEpoch = .ok start) :
    session.verifyHistorical p key expectedKeyId minimumEpoch = .ok () ∧
      start = ⟨Journal.fromSession p key session, Disk.fresh session, [], [], []⟩ := by
  rw [create, check_eq_ok_iff, AuthenticatedSessionV2.verifyLive, check_eq_ok_iff] at created
  exact ⟨created.1.1, (Except.ok.inj created.2).symm⟩

/-- A session that verifies starts a sound transcript. -/
theorem SessionCoreV2.Valid.genesis_sound (valid : session.Valid p) : (Parent.genesis session).Sound session := by
  obtain ⟨token, opened, small⟩ := valid.frontier
  refine ⟨List.prefix_rfl, UInt64.le_refl _, ?_, valid.context, valid.inVocabulary, ?_⟩
  · simp [Parent.genesis]
  · intro carried outputOrdinal frontier
    have same : FrontierV2.opened token session.initialOutputHeight = .opened carried outputOrdinal :=
      opened.symm.trans frontier
    cases same
    exact ⟨rfl, small⟩

theorem linear_create (scope : Scope) (session : AuthenticatedSessionV2) (key : MacKey) :
    World.Linear p scope session.core ⟨Journal.fromSession p key session, Disk.fresh session, [], [], []⟩ where
  session_eq := rfl
  parent_eq := rfl
  lineage := trivial
  known := by simp
  reserved := by simp [Journal.fromSession]
  single := by simp [Journal.fromSession]
  live := by simp [Journal.fromSession]
  prepared := by simp [Journal.fromSession]
  pending := by simp [Journal.fromSession]
  commits := by simp [Disk.fresh]

/-- A reservation that is neither completed nor retired. -/
structure Journal.Open (journal : Journal) (requestId : String) (reservation : ReservationRecordV2) : Prop where
  reserved : journal.reservations.lookup requestId = some reservation
  notCompleted : journal.completions.lookup requestId = none
  notRetired : journal.tombstones.lookup requestId = none

/-- The journal has one chain of commits and at most one open child of its end. -/
structure World.NoFork (p : Primitives) (world : World) : Prop where
  commits : ∀ stem left other right, (world.disk.slots .commits).lookup stem = some (.whole left) →
    (world.disk.slots .commits).lookup other = some (.whole right) →
    left.payload.baseHead = right.payload.baseHead → stem = other
  single : ∀ requestId reservation other reservation', world.journal.Open requestId reservation →
    world.journal.Open other reservation' → requestId = other
  current : ∀ requestId reservation, world.journal.Open requestId reservation →
    world.journal.matchesCurrentParent p reservation.request = true
  children : world.journal.pendingRound p ≠
    .error (invalid "journal has multiple unfinished children of the current head")

theorem Linear.bases
    (free : CollisionFree p (scope.texts session)) (genesis : session.genesisHeadSha256 = session.genesisDigest p)
    (linear : Linear p scope session journal commits activated) :
    (activated.map CommitRecordV2.baseHead).Nodup ∧ journal.headSha256 ∉ activated.map CommitRecordV2.baseHead := by
  have known : ∀ commit ∈ activated, canonical commit.result.core.transition ∈ scope.texts session := by
    intro commit member
    simp only [Scope.texts, List.mem_cons, List.mem_append, List.mem_map]
    exact .inr (.inr ⟨commit.result, linear.known commit member, rfl⟩)
  have nodup := linear.lineage.heads_nodup free genesis (by simp [Scope.texts]) known
  have tip : journal.headSha256 = HashChain.tip CommitRecordV2.newHead session.genesisHeadSha256 activated := by
    have heads : journal.parent.headSha256 = ((Parent.genesis session).after activated).headSha256 := by
      rw [linear.parent_eq]
    exact heads.trans (Parent.after_headSha256 ..)
  rw [tip]
  exact ⟨HashChain.bases_nodup linear.lineage.chained nodup, HashChain.tip_notMem_bases linear.lineage.chained nodup⟩

/-- A waiting commit starts at the current head. -/
theorem Linear.unfinished_baseHead (linear : Linear p scope session journal commits activated)
    (unfinished : Unfinished p scope session journal commit) :
    commit.baseHead = journal.headSha256 := by
  have head := (linear.link_of_unfinished unfinished).accepts.head
  rw [← linear.parent_eq] at head
  exact head

theorem Linear.commits_single (free : CollisionFree p (scope.texts session))
    (genesis : session.genesisHeadSha256 = session.genesisDigest p)
    (linear : Linear p scope session journal commits activated) {stem other : String}
    {left right : JournalEnvelopeV2 CommitRecordV2} (leftStored : commits.lookup stem = some (.whole left))
    (rightStored : commits.lookup other = some (.whole right))
    (same : left.payload.baseHead = right.payload.baseHead) : stem = other := by
  obtain ⟨nodup, fresh⟩ := linear.bases free genesis
  obtain ⟨leftNamed, leftSettled⟩ := linear.commits stem left leftStored
  obtain ⟨rightNamed, rightSettled⟩ := linear.commits other right rightStored
  rw [leftNamed, rightNamed]
  rcases leftSettled with leftIn | leftWaits
  · rcases rightSettled with rightIn | rightWaits
    · rw [List.inj_on_of_nodup_map nodup leftIn rightIn same]
    · rw [linear.unfinished_baseHead rightWaits] at same
      exact absurd (same ▸ List.mem_map_of_mem leftIn) fresh
  · rcases rightSettled with rightIn | rightWaits
    · rw [linear.unfinished_baseHead leftWaits] at same
      exact absurd (same ▸ List.mem_map_of_mem rightIn) fresh
    · obtain ⟨leftReserved, leftFound, leftCore⟩ := leftWaits.reserved
      obtain ⟨rightReserved, rightFound, rightCore⟩ := rightWaits.reserved
      have heads : leftReserved.request.core.baseHeadSha256 = rightReserved.request.core.baseHeadSha256 := by
        rw [leftCore, rightCore]
        exact same
      rw [linear.single _ _ _ _ leftFound rightFound heads]

theorem Linear.open_single (linear : Linear p scope session journal commits activated)
    {requestId other : String} {reservation reservation' : ReservationRecordV2}
    (left : journal.reservations.lookup requestId = some reservation)
    (leftOpen : journal.completions.lookup requestId = none)
    (right : journal.reservations.lookup other = some reservation')
    (rightOpen : journal.completions.lookup other = none) : requestId = other := by
  have leftAccepts := linear.live _ _ left leftOpen
  have rightAccepts := linear.live _ _ right rightOpen
  exact linear.single _ _ _ _ left right (leftAccepts.head.trans rightAccepts.head.symm)

theorem Linear.pendingRound_single (linear : Linear p scope session journal commits activated) :
    journal.pendingRound p ≠ .error (invalid "journal has multiple unfinished children of the current head") := by
  have short : (journal.reservations.entries.filter (journal.isCandidate p)).length ≤ 1 := by
    refine Table.filter_entries_length_le_one fun left reservation right reservation' found kept found' kept' => ?_
    simp only [Journal.isCandidate, Bool.and_eq_true, Bool.not_eq_true', Option.isSome_eq_false_iff,
      Option.isNone_iff_eq_none] at kept kept'
    exact linear.open_single found kept.1.1 found' kept'.1.1
  unfold Journal.pendingRound
  cases journal.pendingActivation with
  | some commit => simp [reject, bind, Except.bind, invalid]
  | none =>
    rcases candidates : journal.reservations.entries.filter (journal.isCandidate p) with _ | ⟨entry, _ | ⟨other, rest⟩⟩
    · simp [reject, bind, Except.bind, pure, Except.pure]
    · simp [reject, bind, Except.bind, pure, Except.pure]
    · simp [candidates] at short

theorem Linear.noFork {world : World} (free : CollisionFree p (scope.texts session))
    (genesis : session.genesisHeadSha256 = session.genesisDigest p) (linear : world.Linear p scope session) :
    world.NoFork p where
  commits _ _ _ _ left right same := Linear.commits_single free genesis linear left right same
  single _ _ _ _ left right :=
    Linear.open_single linear left.reserved left.notCompleted right.reserved right.notCompleted
  current _ _ isOpen := matchesCurrentParent_iff.mpr (linear.live _ _ isOpen.reserved isOpen.notCompleted)
  children := Linear.pendingRound_single linear

/-- Every history of calls keeps the invariant. -/
theorem run_linear {session : AuthenticatedSessionV2} {events : List (Event p)} {start finish : World}
    (free : CollisionFree p ((scopeOf events).texts session.core))
    (calls : ∀ event ∈ events, event.isReopen = false) (initial : start.Linear p (scopeOf events) session.core)
    (ran : run events start = some finish) : finish.Linear p (scopeOf events) session.core := by
  refine run_invariant (fun event member world after linear stepped => ?_) initial ran
  cases event with
  | reopen expectedKeyId minimumEpoch => simpa [Event.isReopen] using calls _ member
  | call operation faults =>
    cases stepped
    exact World.Linear.call free (fun _ passed => List.mem_flatMap.mpr ⟨_, member, passed⟩)
      (fun _ passed => List.mem_flatMap.mpr ⟨_, member, passed⟩)
      (fun _ passed => List.mem_flatMap.mpr ⟨_, member, passed⟩) faults linear

/-- In every state of a created journal the transcript is the fold of the activated results within the
bounds of the session, and the journal has no fork. -/
theorem journal_keeps_one_chain {session : AuthenticatedSessionV2} {key : MacKey} {nowUnixMs : UInt64}
    {expectedKeyId : String} {minimumEpoch : UInt64} {events : List (Event p)} {start finish : World}
    (created : create p session key nowUnixMs expectedKeyId minimumEpoch = .ok start)
    (calls : ∀ event ∈ events, event.isReopen = false)
    (free : CollisionFree p ((scopeOf events).texts session.core)) (ran : run events start = some finish) :
    finish.journal.parent.Sound session.core ∧
      finish.journal.headSha256 =
        foldedHead p session.core.genesisHeadSha256 (finish.activated.map (·.result)) ∧
      finish.NoFork p := by
  obtain ⟨verified, rfl⟩ := create_ok created
  have valid := AuthenticatedSessionV2.verifyHistorical_valid verified
  have linear := run_linear free calls (linear_create _ session key) ran
  refine ⟨?_, ?_, Linear.noFork free valid.genesisDigest linear⟩
  · rw [linear.parent_eq]
    exact linear.lineage.after_sound valid.genesis_sound
  · have heads : finish.journal.parent.headSha256 =
        ((Parent.genesis session.core).after finish.activated).headSha256 := by rw [linear.parent_eq]
    exact heads.trans linear.lineage.head_eq_foldedHead

theorem journal_keeps_one_chain_first_round : ∃ finish, run Sample.firstRound Sample.start = some finish ∧
    finish.journal.parent.Sound Sample.session.core ∧
      finish.journal.headSha256 = foldedHead Sample.primitives Sample.session.core.genesisHeadSha256
        (finish.activated.map (·.result)) ∧
      finish.NoFork Sample.primitives := by
  obtain ⟨finish, ran⟩ := Option.isSome_iff_exists.mp
    (show (run Sample.firstRound Sample.start).isSome = true by rfl)
  exact ⟨finish, ran, journal_keeps_one_chain Sample.created (by simp [Sample.firstRound, Event.isReopen])
    (by decide +kernel) ran⟩

end Muser.Verifier
