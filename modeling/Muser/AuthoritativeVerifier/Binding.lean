import Muser.AuthoritativeVerifier.Chain
import Muser.AuthoritativeVerifier.Filed

/-! # The round behind a result

`record_prepared` compares the whole round with its reservation, but `stage_result` looks at the id
alone, `commit_and_activate` at the intent digest, which leaves the tag out, and its replay branch
again at the id. A caller that stages and commits only rounds it has reserved is bound to exactly
these rounds, and every commit file then carries a round that authenticates.
-/

namespace Muser.Verifier

variable {p : Primitives} {scope : Scope}

/-- A reservation of this very round, with its tag, has become durable. -/
def World.Reserved (world : World) (request : AuthenticatedRoundV2) : Prop :=
  ∃ record, ⟨.reservations, record⟩ ∈ world.written ∧ ReservationRecordV2.request record = request

/-- Whenever a round is presented, it is the round that was to be reserved under its id. -/
def Exact (reserved presented : List AuthenticatedRoundV2) : Prop :=
  ∀ round ∈ presented, ∀ original ∈ reserved, round.core.requestId = original.core.requestId → round = original

/-- A result for a durably reserved round. -/
def World.Answered (p : Primitives) (session : SessionCoreV2) (world : World) (result : AuthenticatedResultV2) : Prop :=
  ∃ request, world.Reserved request ∧ result.verifyAgainst p request session = .ok ()

variable {world after : World} {request : AuthenticatedRoundV2} {result : AuthenticatedResultV2}
  {session : AuthenticatedSessionV2} {key : MacKey} {tearing : Prop} {reserved : List AuthenticatedRoundV2}
  {faults : FileOp → Fault} {nowUnixMs : UInt64}

theorem World.Reserved.mono (durable : world.Reserved request)
    (grows : world.written ⊆ after.written) : after.Reserved request := by
  obtain ⟨record, member, same⟩ := durable
  exact ⟨record, grows member, same⟩

theorem World.Answered.mono {session : SessionCoreV2}
    (answered : world.Answered p session result) (grows : world.written ⊆ after.written) :
    after.Answered p session result := by
  obtain ⟨request, durable, verified⟩ := answered
  exact ⟨request, durable.mono grows, verified⟩

/-- Every result the journal holds, in memory or on file, answers a durably reserved round. -/
structure World.Bound (p : Primitives) (reserved : List AuthenticatedRoundV2) (session : AuthenticatedSessionV2)
    (key : MacKey) (world : World) : Prop where
  session_eq : world.journal.session = session
  disk_eq : world.disk.session = session
  key_eq : world.journal.key = key
  written : ∀ request, world.Reserved request →
    request ∈ reserved ∧ request.verifyHistorical p session.core key = .ok ()
  reservations : ∀ requestId record, world.journal.reservations.lookup requestId = some record →
    ⟨.reservations, record⟩ ∈ world.written
  prepared : ∀ requestId record, world.journal.prepared.lookup requestId = some record →
    record.result.core.requestId = requestId ∧ world.Answered p session.core record.result
  completions : ∀ requestId result, world.journal.completions.lookup requestId = some result →
    result.core.requestId = requestId ∧ world.Answered p session.core result
  pending : ∀ commit, world.journal.pendingActivation = some commit →
    world.Reserved commit.request ∧ commit.result.verifyAgainst p commit.request session.core = .ok ()
  reservationFiles : ∀ stem envelope, (world.disk.slots .reservations).lookup stem = some (.whole envelope) →
    ⟨.reservations, envelope.payload⟩ ∈ world.written
  preparedFiles : ∀ stem envelope, (world.disk.slots .prepared).lookup stem = some (.whole envelope) →
    world.Answered p session.core envelope.payload.result
  commitFiles : ∀ stem envelope, (world.disk.slots .commits).lookup stem = some (.whole envelope) →
    world.Reserved envelope.payload.request ∧
      envelope.payload.result.verifyAgainst p envelope.payload.request session.core = .ok ()

namespace World.Bound

variable {reserved presented : List AuthenticatedRoundV2} {session : AuthenticatedSessionV2} {key : MacKey}

/-- The reserved round behind a result is the presented one. -/
theorem presented_eq {world : World} (bound : world.Bound p reserved session key) (exact : Exact reserved presented)
    {request : AuthenticatedRoundV2} (passed : request ∈ presented) {result : AuthenticatedResultV2}
    (identified : result.core.requestId = request.core.requestId) (answered : world.Answered p session.core result) :
    world.Reserved request ∧ result.verifyAgainst p request session.core = .ok () := by
  obtain ⟨original, durable, verified⟩ := answered
  have answers := AuthenticatedResultV2.verifyAgainst_answers verified
  have ids : request.core.requestId = original.core.requestId := identified.symm.trans answers.requestId
  obtain rfl := exact request passed original (bound.written original durable).1 ids
  exact ⟨durable, verified⟩

/-- The parts of the invariant that the memory carries survive when the history of records grows. -/
theorem frame {world after : World} (bound : world.Bound p reserved session key)
    (journals : after.journal = world.journal) (sessions : after.disk.session = world.disk.session)
    (grows : world.written ⊆ after.written) (written : ∀ request, after.Reserved request →
      request ∈ reserved ∧ request.verifyHistorical p session.core key = .ok ())
    (reservations : ∀ stem envelope, (after.disk.slots .reservations).lookup stem = some (.whole envelope) →
      (world.disk.slots .reservations).lookup stem = some (.whole envelope) ∨
        ⟨.reservations, envelope.payload⟩ ∈ after.written)
    (prepared : ∀ stem envelope, (after.disk.slots .prepared).lookup stem = some (.whole envelope) →
      (world.disk.slots .prepared).lookup stem = some (.whole envelope) ∨
        world.Answered p session.core envelope.payload.result)
    (commits : ∀ stem envelope, (after.disk.slots .commits).lookup stem = some (.whole envelope) →
      (world.disk.slots .commits).lookup stem = some (.whole envelope) ∨
        (world.Reserved envelope.payload.request ∧
          envelope.payload.result.verifyAgainst p envelope.payload.request session.core = .ok ())) :
    after.Bound p reserved session key where
  session_eq := journals ▸ bound.session_eq
  disk_eq := sessions.trans bound.disk_eq
  key_eq := journals ▸ bound.key_eq
  written := written
  reservations requestId record found := grows (bound.reservations requestId record (journals ▸ found))
  prepared requestId record found := by
    obtain ⟨identified, answer⟩ := bound.prepared requestId record (journals ▸ found)
    exact ⟨identified, answer.mono grows⟩
  completions requestId result found := by
    obtain ⟨identified, answer⟩ := bound.completions requestId result (journals ▸ found)
    exact ⟨identified, answer.mono grows⟩
  pending commit found := by
    obtain ⟨durable, verified⟩ := bound.pending commit (journals ▸ found)
    exact ⟨durable.mono grows, verified⟩
  reservationFiles stem envelope found := by
    rcases reservations stem envelope found with old | fresh
    · exact grows (bound.reservationFiles stem envelope old)
    · exact fresh
  preparedFiles stem envelope found := by
    rcases prepared stem envelope found with old | fresh
    · exact (bound.preparedFiles stem envelope old).mono grows
    · exact fresh.mono grows
  commitFiles stem envelope found := by
    rcases commits stem envelope found with old | ⟨durable, verified⟩
    · obtain ⟨durable, verified⟩ := bound.commitFiles stem envelope old
      exact ⟨durable.mono grows, verified⟩
    · exact ⟨durable.mono grows, verified⟩

/-- Steps that write no record. -/
theorem unwritten {world after : World} (bound : world.Bound p reserved session key)
    (journals : after.journal = world.journal) (sessions : after.disk.session = world.disk.session)
    (written : after.written = world.written)
    (files : ∀ directory stem file, (after.disk.slots directory).lookup stem = some file →
      (world.disk.slots directory).lookup stem = some file) : after.Bound p reserved session key := by
  refine bound.frame journals sessions (by rw [written]; exact List.Subset.refl _) (fun request durable => ?_)
    (fun _ _ found => .inl (files _ _ _ found)) (fun _ _ found => .inl (files _ _ _ found))
    (fun _ _ found => .inl (files _ _ _ found))
  refine bound.written request ?_
  rw [World.Reserved, written] at durable
  exact durable

/-- A torn file holds no record. -/
theorem tear {world : World} (bound : world.Bound p reserved session key) (directory : Slot) (stem : String)
    (bytes : Bytes) : (world.placeSlot directory stem (.torn bytes)).Bound p reserved session key := by
  exact bound.frame rfl rfl (List.Subset.refl _) bound.written (fun _ _ found => .inl (World.whole_of_torn found))
    (fun _ _ found => .inl (World.whole_of_torn found)) (fun _ _ found => .inl (World.whole_of_torn found))

/-- What a record must satisfy to be placed. -/
def Fits (p : Primitives) (reserved : List AuthenticatedRoundV2) (session : SessionCoreV2) (key : MacKey)
    (world : World) : (directory : Slot) → directory.Record → Prop
  | .reservations, record =>
    record.request ∈ reserved ∧ record.request.verifyHistorical p session key = .ok ()
  | .prepared, record => world.Answered p session record.result
  | .commits, record =>
    world.Reserved record.request ∧ record.result.verifyAgainst p record.request session = .ok ()
  | .staged, _ | .active, _ | .acks, _ | .tombstones, _ => True

/-- A whole file joins its directory and the history. -/
theorem placeSlot {world : World} (bound : world.Bound p reserved session key) {directory : Slot}
    {record : directory.Record} (fits : Fits p reserved session.core key world directory record) (stem : String) :
    (world.placeSlot directory stem (.whole (sealed p world.journal directory record))).Bound p reserved session
      key := by
  have grows : world.written ⊆ world.written ++ [⟨directory, record⟩] := List.subset_append_left ..
  have split : ∀ (other : Slot) name (envelope : JournalEnvelopeV2 other.Record),
      ((world.placeSlot directory stem (.whole (sealed p world.journal directory record))).disk.slots other).lookup
        name = some (.whole envelope) →
        (world.disk.slots other).lookup name = some (.whole envelope) ∨
          (⟨other, envelope.payload⟩ : Σ directory : Slot, directory.Record) = ⟨directory, record⟩ := by
    intro other name envelope found
    refine (World.whole_placeSlot found).imp_right fun ⟨_, is⟩ => ?_
    cases is
    rfl
  refine bound.frame rfl rfl grows (fun request durable => ?_) (fun stem envelope found => ?_)
    (fun stem envelope found => ?_) (fun stem envelope found => ?_)
  · obtain ⟨reservation, member, rfl⟩ := durable
    rcases List.mem_append.mp member with old | fresh
    · exact bound.written _ ⟨reservation, old, rfl⟩
    · cases List.mem_singleton.mp fresh
      exact fits
  · refine (split _ _ _ found).imp_right fun same => ?_
    rw [same]
    exact List.mem_append_right _ (List.mem_singleton_self _)
  · refine (split _ _ _ found).imp_right fun same => ?_
    cases same
    exact fits
  · refine (split _ _ _ found).imp_right fun same => ?_
    cases same
    exact fits

variable {requestId : String} {directory : Slot}

/-- The checks before a write make its record fit. -/
theorem fits {world : World} (bound : world.Bound p reserved session key) (exact : Exact reserved presented)
    (reservedIn : scope.reserved ⊆ reserved) (presentedIn : scope.presented ⊆ presented)
    {record : directory.Record} (admits : Admits p scope world directory requestId record) :
    Fits p reserved session.core key world directory record := by
  cases admits with
  | reservation passed checked =>
    have verified := (reserveCheck_none checked).verified
    rw [bound.session_eq, bound.key_eq] at verified
    exact ⟨reservedIn passed, verified⟩
  | prepared answered checked =>
    obtain ⟨verified, ⟨reservation, found, same⟩, _⟩ := (preparedCheck_ok checked).1
    rw [bound.session_eq] at verified
    exact ⟨_, ⟨reservation, bound.reservations _ _ found, same⟩, verified⟩
  | commit passed settled checked =>
    obtain ⟨rfl, _, ⟨prepared, found, results, _⟩, _, _⟩ := commitCheck_inr checked
    obtain ⟨identified, answered⟩ := bound.prepared _ prepared found
    rw [results] at identified answered
    exact bound.presented_eq exact (presentedIn passed) identified answered
  | staged | ack | tombstone => exact trivial

/-- A record on file is remembered. -/
theorem memorize {world : World} (bound : world.Bound p reserved session key)
    {record : directory.Record} (fits : Fits p reserved session.core key world directory record)
    (identified : directory.requestId record = requestId) (held : world.disk.Holds p directory requestId record) :
    (world.setJournal (·.memorize directory requestId record)).Bound p reserved session key := by
  cases directory with
  | reservations =>
    refine { bound with reservations := fun other found lookup => ?_ }
    obtain ⟨envelope, stored, payload, _⟩ := held
    rcases Table.lookup_insert_cases lookup with ⟨_, rfl⟩ | ⟨_, old⟩
    · exact payload ▸ bound.reservationFiles _ _ stored
    · exact bound.reservations other found old
  | prepared =>
    refine { bound with prepared := fun other found lookup => ?_ }
    rcases Table.lookup_insert_cases lookup with ⟨rfl, rfl⟩ | ⟨_, old⟩
    · exact ⟨identified, fits⟩
    · exact bound.prepared other found old
  | commits =>
    refine { bound with pending := fun commit found => ?_ }
    cases found
    exact fits
  | staged | active | acks | tombstones => exact { bound with }

theorem record {world : World} (bound : world.Bound p reserved session key) (exact : Exact reserved presented)
    (reservedIn : scope.reserved ⊆ reserved) (presentedIn : scope.presented ⊆ presented) {directory : Slot}
    {requestId : String} {record : directory.Record} (admits : Admits p scope world directory requestId record)
    (free : world.Free p directory requestId record) :
    ((world.putSlot p directory requestId record).setJournal (·.memorize directory requestId record)).Bound p reserved
      session key := by
  have fitting := bound.fits exact reservedIn presentedIn admits
  have held := World.holds_putSlot free admits.requestId_eq
  rcases free with absent | present
  · rw [World.putSlot, absent] at held ⊢
    have placed := bound.placeSlot fitting (slotStem p requestId)
    refine placed.memorize ?_ admits.requestId_eq held
    have grows : world.written ⊆ (world.placeSlot directory (slotStem p requestId)
        (.whole (sealed p world.journal directory record))).written := List.subset_append_left ..
    cases directory with
    | reservations => exact fitting
    | prepared => exact World.Answered.mono fitting grows
    | commits => exact ⟨fitting.1.mono grows, fitting.2⟩
    | staged | active | acks | tombstones => trivial
  · rw [World.putSlot, present] at held ⊢
    exact bound.memorize fitting admits.requestId_eq held

/-- The pending commit becomes a completion. -/
theorem applied {world : World} (bound : world.Bound p reserved session key) {commit : CommitRecordV2}
    {journal : Journal} (pending : world.journal.pendingActivation = some commit)
    (applied : world.journal.applyActive p commit.request commit.result = .ok journal) :
    (world.applied commit journal).Bound p reserved session key := by
  obtain ⟨durable, verified⟩ := bound.pending commit pending
  obtain ⟨_, ⟨_, rfl⟩ | ⟨_, _, rfl⟩⟩ := applyActive_ok applied
  · exact { bound with pending := fun other found => by cases found }
  · refine { bound with
      completions := fun requestId result found => ?_
      pending := fun other found => by cases found }
    rcases Table.lookup_insert_cases found with ⟨rfl, rfl⟩ | ⟨_, old⟩
    · exact ⟨(AuthenticatedResultV2.verifyAgainst_answers verified).requestId, commit.request, durable, verified⟩
    · exact bound.completions requestId result old

theorem forget {world : World} (bound : world.Bound p reserved session key) (requestId : String) :
    (world.setJournal (·.forget requestId)).Bound p reserved session key :=
  { bound with
    reservations := fun other record found => bound.reservations other record (Table.lookup_erase_eq_some found).2
    prepared := fun other record found => bound.prepared other record (Table.lookup_erase_eq_some found).2
    completions := fun other result found => bound.completions other result (Table.lookup_erase_eq_some found).2 }

end World.Bound

theorem Micro.bound {reserved presented : List AuthenticatedRoundV2} (exact : Exact reserved presented)
    (reservedIn : scope.reserved ⊆ reserved) (presentedIn : scope.presented ⊆ presented)
    (bound : world.Bound p reserved session key) (step : Micro p scope tearing world after) :
    after.Bound p reserved session key := by
  cases step with
  | tear allowed absent => exact bound.tear ..
  | stray allowed admits absent => exact bound.placeSlot (bound.fits exact reservedIn presentedIn admits) _
  | record admits free => exact bound.record exact reservedIn presentedIn admits free
  | @activate commit nowUnixMs _ pending receiptValid absent applied =>
    have placed := @World.Bound.placeSlot p _ _ _ _ bound .active (activeRecord p commit nowUnixMs) trivial
      (slotStem p commit.request.core.requestId)
    exact placed.applied pending applied
  | reactivate pending receiptValid agrees applied => exact bound.applied pending applied
  | strayActive allowed pending absent | jam pending absent refused =>
    exact @World.Bound.placeSlot p _ _ _ _ bound .active _ trivial _
  | unlinkSlot retiring retired =>
    refine bound.unwritten rfl rfl rfl fun other stem file found => ?_
    rename_i requestId directory result
    by_cases same : other = directory
    · subst same
      rw [World.setFiles, Disk.setSlots_slots_self] at found
      exact (Table.lookup_erase_eq_some found).2
    · rw [World.setFiles, Disk.setSlots_slots_of_ne _ _ same] at found
      exact found
  | display | payload | unlinkFragment => exact bound.unwritten rfl rfl rfl fun _ _ _ found => found
  | forget retiring unlinked => exact bound.forget _

variable {journal : Journal} {fence : AuthorityFenceV2} {renderer : VerifierRendererV2 p}

/-- A reopened journal remembers what the files say. -/
theorem World.Bound.reopen {world : World} (bound : world.Bound p reserved session key)
    (opened : Opened p world.disk world.journal.key journal) :
    World.Bound p reserved session key { world with journal } := by
  have committed : ∀ requestId commit, world.disk.Holds p .commits requestId commit →
      world.Reserved commit.request ∧ commit.result.verifyAgainst p commit.request session.core = .ok () ∧
        commit.request.core.requestId = requestId := by
    rintro requestId commit ⟨envelope, stored, rfl, identified⟩
    obtain ⟨durable, verified⟩ := bound.commitFiles _ envelope stored
    exact ⟨durable, verified, identified⟩
  exact { bound with
    session_eq := opened.session_eq.trans bound.disk_eq
    key_eq := opened.key_eq.trans bound.key_eq
    reservations := fun requestId record found => by
      obtain ⟨⟨envelope, stored, rfl, _⟩, _⟩ := (opened.reservations requestId record).mp found
      exact bound.reservationFiles _ envelope stored
    prepared := fun requestId record found => by
      obtain ⟨⟨envelope, stored, rfl, identified⟩, _⟩ := (opened.prepared requestId record).mp found
      exact ⟨identified, bound.preparedFiles _ envelope stored⟩
    completions := fun requestId result found => by
      obtain ⟨commit, _, held, rfl, _⟩ := (opened.completions requestId result).mp found
      obtain ⟨durable, verified, identified⟩ := committed requestId commit held
      have answers := AuthenticatedResultV2.verifyAgainst_answers verified
      exact ⟨answers.requestId.trans identified, commit.request, durable, verified⟩
    pending := fun commit found => by
      obtain ⟨requestId, held, _⟩ := (opened.pending commit).mp found
      obtain ⟨durable, verified, _⟩ := committed requestId commit held
      exact ⟨durable, verified⟩ }

theorem World.Bound.call {reserved presented : List AuthenticatedRoundV2} {session : AuthenticatedSessionV2}
    {key : MacKey} (exact : Exact reserved presented) {operation : Call p} (reservedIn : operation.reserved ⊆ reserved)
    (presentedIn : operation.presented ⊆ presented) (faults : FileOp → Fault) {world : World}
    (bound : world.Bound p reserved session key) : (operation.exec faults world).Bound p reserved session key :=
  Path.invariant (fun _ _ held step => step.bound exact reservedIn presentedIn held) bound
    (operation.exec_path_own faults world)

theorem bound_create (reserved : List AuthenticatedRoundV2) (session : AuthenticatedSessionV2) (key : MacKey) :
    World.Bound p reserved session key ⟨Journal.fromSession p key session, Disk.fresh session, [], [], []⟩ where
  session_eq := rfl
  disk_eq := rfl
  key_eq := rfl
  written := by simp [World.Reserved]
  reservations := by simp [Journal.fromSession]
  prepared := by simp [Journal.fromSession]
  completions := by simp [Journal.fromSession]
  pending := by simp [Journal.fromSession]
  reservationFiles := by simp [Disk.fresh]
  preparedFiles := by simp [Disk.fresh]
  commitFiles := by simp [Disk.fresh]

theorem run_bound {events : List (Event p)} {start finish : World}
    (exact : Exact (scopeOf events).reserved (scopeOf events).presented)
    (initial : start.Bound p (scopeOf events).reserved session key) (ran : run events start = some finish) :
    finish.Bound p (scopeOf events).reserved session key := by
  refine run_invariant (fun event member world after bound stepped => ?_) initial ran
  cases event with
  | call operation faults =>
    cases stepped
    exact bound.call exact (fun _ passed => List.mem_flatMap.mpr ⟨_, member, passed⟩)
      (fun _ passed => List.mem_flatMap.mpr ⟨_, member, passed⟩) faults
  | reopen expectedKeyId minimumEpoch =>
    obtain ⟨journal, opened, rfl⟩ := Event.step_reopen stepped
    exact bound.reopen (openJournal_ok opened)

/-- The history of records only grows. -/
theorem Micro.grows (step : Micro p scope tearing world after) :
    world.written ⊆ after.written := by
  have placed : ∀ {directory : Slot} {stem : String} (file : SlotFile directory.Record),
      world.written ⊆ (world.placeSlot directory stem file).written := by
    intro directory stem file
    cases file with
    | whole envelope => exact List.subset_append_left ..
    | torn bytes => exact List.Subset.refl _
  cases step with
  | @record directory requestId record admits free =>
    change world.written ⊆ (world.putSlot p directory requestId record).written
    unfold World.putSlot
    split
    · exact placed _
    · exact List.Subset.refl _
  | @activate commit nowUnixMs _ pending receiptValid absent applied =>
    exact @placed .active (slotStem p commit.request.core.requestId)
      (.whole (sealed p world.journal .active (activeRecord p commit nowUnixMs)))
  | tear | stray | strayActive | jam => exact placed _
  | reactivate | display | payload | unlinkFragment | unlinkSlot | forget => exact List.Subset.refl _

theorem Path.grows (path : Path p scope tearing world after) :
    world.written ⊆ after.written :=
  @Path.invariant p scope tearing (fun later => world.written ⊆ later.written)
    (fun _ _ earlier step => List.Subset.trans earlier step.grows) _ _ (List.Subset.refl _) path

/-- The round is the one that became durable under its id, the only one. -/
structure World.Binds (world : World) (request : AuthenticatedRoundV2) : Prop where
  reserved : world.Reserved request
  unique : ∀ original, world.Reserved original → original.core.requestId = request.core.requestId → original = request

theorem World.Bound.binds {world : World} (bound : world.Bound p reserved session key)
    (exact : Exact reserved [request]) (durable : world.Reserved request) : world.Binds request where
  reserved := durable
  unique original other same := by
    have known := (bound.written original other).1
    exact (exact request (List.mem_singleton_self _) original known same.symm).symm

/-- `record_prepared` itself compares the whole round with its reservation. -/
theorem recordPrepared_reserved (bound : world.Bound p reserved session key)
    {answer : Unit} (answered : recordPrepared p faults request result fence nowUnixMs world = (.ok answer, after)) :
    world.Reserved request := by
  unfold recordPrepared at answered
  rw [Prog.bind_read] at answered
  cases checked : world.journal.preparedCheck p request result fence nowUnixMs with
  | error failure =>
    rw [checked, Prog.bind_lift_error] at answered
    cases answered
  | ok existing =>
    obtain ⟨reservation, found, same⟩ := (preparedCheck_ok checked).1.reserved
    exact ⟨reservation, bound.reservations _ _ found, same⟩

theorem stageResult_reserved (bound : world.Bound p reserved session key)
    (exact : Exact reserved [request]) {closure : VerifiedClosureV2 p} {receipt : RendererStageReceiptV2}
    (answered : stageResult p faults request closure renderer nowUnixMs world = (.ok receipt, after)) :
    world.Reserved request := by
  unfold stageResult at answered
  rw [Prog.bind_read] at answered
  cases checked : world.journal.stageCheck p request closure with
  | error failure =>
    rw [checked, Prog.bind_lift_error] at answered
    cases answered
  | ok outcome =>
    obtain ⟨found, _, _⟩ := stageCheck_ok checked
    obtain ⟨identified, known⟩ := bound.prepared _ _ found
    exact (bound.presented_eq exact (List.mem_singleton_self _) identified known).1

/-- A commit that answers leaves its result in memory. -/
theorem commitAndActivate_completed
    (answered : commitAndActivate p faults request fence renderer nowUnixMs world = (.ok result, after)) :
    after.journal.completions.lookup request.core.requestId = some result := by
  have completed : (commitAndActivate p faults request fence renderer nowUnixMs).Ensures world fun answer after =>
      ∀ result, answer = .ok result → after.journal.completions.lookup request.core.requestId = some result := by
    unfold commitAndActivate
    refine Prog.ensures_bind_ran (fun _ middle _ => ?_) (fun _ _ _ => by simp)
    rw [Prog.ensures_read_bind]
    refine Prog.ensures_lift_bind (by simp) fun outcome checked => ?_
    cases outcome with
    | inl replayed =>
      rintro _ same
      cases same
      exact commitCheck_inl checked
    | inr commit =>
      refine Prog.ensures_bind_ran (fun _ stored _ => ?_) (fun _ _ _ => by simp)
      rw [Prog.ensures_modify_bind]
      refine Prog.ensures_bind_ran (fun _ finished _ => ?_) (fun _ _ _ => by simp)
      rw [Prog.ensures_read_bind]
      cases found : finished.journal.completions.lookup request.core.requestId with
      | some published =>
        rintro _ same
        cases same
        exact found
      | none => simp
  rw [Prog.Ensures, answered] at completed
  exact completed result rfl

/-- A caller that stages and commits only rounds it has reserved is answered for exactly these rounds. -/
theorem exact_rounds_bound {session : AuthenticatedSessionV2} {key : MacKey} {createdUnixMs : UInt64}
    {expectedKeyId : String} {minimumEpoch : UInt64} {events : List (Event p)} {start world : World}
    (created : create p session key createdUnixMs expectedKeyId minimumEpoch = .ok start)
    (exact : Exact (scopeOf events).reserved (scopeOf events).presented) (ran : run events start = some world)
    (faults : FileOp → Fault) (request : AuthenticatedRoundV2) (presented : Exact (scopeOf events).reserved [request]) :
    (∀ result fence nowUnixMs answer after,
      recordPrepared p faults request result fence nowUnixMs world = (.ok answer, after) → after.Binds request) ∧
    (∀ closure renderer nowUnixMs receipt after,
      stageResult p faults request closure renderer nowUnixMs world = (.ok receipt, after) → after.Binds request) ∧
    (∀ fence renderer nowUnixMs result after,
      commitAndActivate p faults request fence renderer nowUnixMs world = (.ok result, after) →
        after.Binds request ∧ result.core.requestIntentSha256 = request.intentSha256 p) ∧
    ∀ stem envelope, (world.disk.slots .commits).lookup stem = some (.whole envelope) →
      envelope.payload.request.verifyHistorical p session.core key = .ok () := by
  obtain ⟨_, rfl⟩ := create_ok created
  have bound := run_bound exact (bound_create _ session key) ran
  -- Each of the three calls is a path that keeps the invariant and lets the history grow.
  have binds : ∀ operation : Call p, operation.reserved = [] → operation.presented ⊆ [request] →
      world.Reserved request → (operation.exec faults world).Binds request := by
    intro operation none own durable
    have after := bound.call presented (by rw [none]; exact List.nil_subset _) own faults
    exact after.binds presented (durable.mono (operation.exec_path_own faults world).grows)
  refine ⟨fun result fence nowUnixMs answer after answered => ?_,
    fun closure renderer nowUnixMs receipt after answered => ?_,
    fun fence renderer nowUnixMs result after answered => ?_, fun stem envelope found => ?_⟩
  · have bound' := binds (.recordPrepared request result fence nowUnixMs) rfl (List.nil_subset _)
      (recordPrepared_reserved bound answered)
    rw [Call.exec, answered] at bound'
    exact bound'
  · have bound' := binds (.stageResult request closure renderer nowUnixMs) rfl (List.Subset.refl _)
      (stageResult_reserved bound presented answered)
    rw [Call.exec, answered] at bound'
    exact bound'
  · have bound' := @World.Bound.call p _ _ _ _ presented (.commitAndActivate request fence renderer nowUnixMs)
      (List.nil_subset _) (List.Subset.refl _) faults _ bound
    rw [Call.exec, answered] at bound'
    obtain ⟨identified, known⟩ := bound'.completions _ _ (commitAndActivate_completed answered)
    obtain ⟨durable, verified⟩ := bound'.presented_eq presented (List.mem_singleton_self _) identified known
    exact ⟨bound'.binds presented durable, (AuthenticatedResultV2.verifyAgainst_answers verified).intent⟩
  · exact (bound.written _ (bound.commitFiles stem envelope found).1).2

/-- The first round up to its stage. -/
private abbrev staged : List (Event Sample.primitives) := Sample.firstRound.take 3

/-- The commit of the round is answered. -/
private def commits (world : World) : Bool :=
  (commitAndActivate Sample.primitives Sample.sound Sample.request Sample.fence Sample.renderer 8 world).1.isOk

private theorem answered_of_commits {world : World} (is : commits world = true) : ∃ result after,
    commitAndActivate Sample.primitives Sample.sound Sample.request Sample.fence Sample.renderer 8 world =
      (.ok result, after) := by
  rw [commits] at is
  cases answered : commitAndActivate Sample.primitives Sample.sound Sample.request Sample.fence Sample.renderer 8 world with
  | mk answer after =>
    cases answer with
    | error failure => simp [answered, Except.isOk, Except.toBool] at is
    | ok result => exact ⟨result, after, rfl⟩

/-- What is there when the round is to be committed. -/
private def readyWorld : World := ((run staged Sample.start).filter commits).get (by decide +kernel)

private theorem ready : run staged Sample.start = some readyWorld ∧ commits readyWorld = true := by
  have got : (run staged Sample.start).filter commits = some readyWorld := (Option.some_get _).symm
  exact Option.filter_eq_some_iff.mp got

theorem exact_rounds_bound_first_round : ∃ world, run staged Sample.start = some world ∧
    ∃ result after, commitAndActivate Sample.primitives Sample.sound Sample.request Sample.fence Sample.renderer 8 world =
      (.ok result, after) ∧ after.Binds Sample.request ∧
        result.core.requestIntentSha256 = Sample.request.intentSha256 Sample.primitives := by
  obtain ⟨ran, accepted⟩ := ready
  obtain ⟨result, after, answered⟩ := answered_of_commits accepted
  have exact : Exact (scopeOf staged).reserved [Sample.request] := by
    simp [Exact, staged, Sample.firstRound, scopeOf, Event.reserved, Call.reserved]
  have bound := exact_rounds_bound Sample.created (by simp [Exact, staged, Sample.firstRound, scopeOf, Event.reserved,
    Call.reserved, Event.presented, Call.presented]) ran Sample.sound Sample.request exact
  exact ⟨readyWorld, ran, result, after, answered, bound.2.2.1 _ _ _ _ _ answered⟩

/-- The mismatch is noticed when the journal is opened. -/
theorem Opened.commit_verified {disk : Disk} (opened : Opened p disk key journal)
    {stem : String} {envelope : JournalEnvelopeV2 CommitRecordV2}
    (stored : (disk.slots .commits).lookup stem = some (.whole envelope)) :
    envelope.payload.request.verifyHistorical p disk.session.core key = .ok () := by
  obtain ⟨_, whole, named⟩ := opened.files .commits stem _ stored
  cases whole
  have checked := opened.commitChecked _ envelope.payload ⟨envelope, by rw [named]; exact stored, rfl, rfl⟩
  have verified := checked.verified
  rw [opened.session_eq, opened.key_eq] at verified
  exact verified

/-- The first round with another tag. -/
private abbrev forged : AuthenticatedRoundV2 := { Sample.request with hmacSha256 := zeroDigest }

/-- The commit of the forged round is answered, and what it leaves would be refused. -/
private def exposes (world : World) : Bool :=
  let answer := commitAndActivate Sample.primitives Sample.sound forged Sample.fence Sample.renderer 8 world
  answer.1.isOk && (answer.2.written.all fun entry => match entry with
    | ⟨.reservations, record⟩ => decide (record.request ≠ forged)
    | _ => true) && decide (answer.2.disk.session = Sample.session) &&
  ((answer.2.disk.slots .commits).lookup (slotStem Sample.primitives "first")).any fun file => match file with
    | .whole envelope => !(envelope.payload.request.verifyHistorical Sample.primitives Sample.session.core
        Sample.key).isOk
    | .torn _ => false

private theorem unopened_of_exposes {world : World} (is : exposes world = true) : ∃ result after,
    commitAndActivate Sample.primitives Sample.sound forged Sample.fence Sample.renderer 8 world = (.ok result, after) ∧
      ¬after.Reserved forged ∧
      (∃ stem envelope, (after.disk.slots .commits).lookup stem = some (.whole envelope) ∧
        envelope.payload.request.verifyHistorical Sample.primitives Sample.session.core Sample.key ≠ .ok ()) ∧
      ∀ journal, openJournal Sample.primitives after.disk Sample.key "key" 0 ≠ .ok journal := by
  simp only [exposes, Option.any_eq_true, Bool.and_eq_true, List.all_eq_true, decide_eq_true_eq] at is
  obtain ⟨⟨⟨accepted, unreserved⟩, sessions⟩, file, stored, unverified⟩ := is
  cases answered : commitAndActivate Sample.primitives Sample.sound forged Sample.fence Sample.renderer 8 world with
  | mk answer after =>
    rw [answered] at accepted unreserved stored sessions
    cases answer with
    | error failure => simp [Except.isOk, Except.toBool] at accepted
    | ok result =>
      cases file with
      | torn bytes => simp at unverified
      | whole envelope =>
        have refused : envelope.payload.request.verifyHistorical Sample.primitives Sample.session.core Sample.key ≠
            .ok () := fun verified => by simp [verified, Except.isOk, Except.toBool] at unverified
        refine ⟨result, after, rfl, ?_, ⟨_, envelope, stored, refused⟩, fun journal opened => refused ?_⟩
        · rintro ⟨record, member, same⟩
          simpa [same] using unreserved _ member
        · rw [← sessions]
          exact (openJournal_ok opened).commit_verified stored

/-- What is there when the forged round is committed. -/
private def exposedWorld : World := ((run staged Sample.start).filter exposes).get (by decide +kernel)

/-- A forged tag is committed, under a round that was never reserved, and the journal does not open again. -/
theorem forged_tag_commits : ∃ world, run staged Sample.start = some world ∧
    ∃ result after, commitAndActivate Sample.primitives Sample.sound forged Sample.fence Sample.renderer 8 world =
      (.ok result, after) ∧ ¬after.Reserved forged ∧
      (∃ stem envelope, (after.disk.slots .commits).lookup stem = some (.whole envelope) ∧
        envelope.payload.request.verifyHistorical Sample.primitives Sample.session.core Sample.key ≠ .ok ()) ∧
      ∀ journal, openJournal Sample.primitives after.disk Sample.key "key" 0 ≠ .ok journal := by
  have got : (run staged Sample.start).filter exposes = some exposedWorld := (Option.some_get _).symm
  obtain ⟨ran, exposed⟩ := Option.filter_eq_some_iff.mp got
  exact ⟨exposedWorld, ran, unopened_of_exposes exposed⟩

end Muser.Verifier
