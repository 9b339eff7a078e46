import Muser.AuthoritativeVerifier.Journal

/-! # What the checks of each operation establish

An operation writes only after its checks have passed. Each lemma here inverts the check function
of one operation into the facts that hold in the journal at that moment.
-/

namespace Muser.Verifier

variable {p : Primitives} {journal : Journal}

/-- The committed state that a round extends. -/
structure Parent where
  evaluatedTokens : List UInt32
  outputHeight : UInt64
  headSha256 : String
  frontier : FrontierV2
  samplerState : SamplerStateV2

/-- The current parent of a journal. -/
def Journal.parent (journal : Journal) : Parent :=
  ⟨journal.evaluatedTokens, journal.outputHeight, journal.headSha256, journal.frontier, journal.samplerState⟩

/-- A round that names exactly this parent. -/
structure Parent.Accepts (p : Primitives) (parent : Parent) (request : AuthenticatedRoundV2) : Prop where
  height : request.core.baseOutputHeight = parent.outputHeight
  head : request.core.baseHeadSha256 = parent.headSha256
  frontier : request.core.frontierIn = parent.frontier
  sampler : request.core.baseSamplerState = parent.samplerState
  tokens : request.core.baseEvaluatedTokens = parent.evaluatedTokens
  digest : request.core.baseTokensSha256 = tokenDigest p parent.evaluatedTokens

variable {request : AuthenticatedRoundV2} {fence : AuthorityFenceV2} {nowUnixMs : UInt64} {result : AuthenticatedResultV2}

theorem matchesCurrentParent_iff :
    journal.matchesCurrentParent p request = true ↔ journal.parent.Accepts p request := by
  simp only [Journal.matchesCurrentParent, Bool.and_eq_true, beq_iff_eq]
  constructor
  · rintro ⟨⟨⟨⟨⟨height, head⟩, frontier⟩, sampler⟩, tokens⟩, digest⟩
    exact ⟨height, head, frontier, sampler, tokens, digest⟩
  · rintro ⟨height, head, frontier, sampler, tokens, digest⟩
    exact ⟨⟨⟨⟨⟨height, head⟩, frontier⟩, sampler⟩, tokens⟩, digest⟩

/-- A parent only looks at the core of a round. -/
theorem Parent.Accepts.of_core_eq {parent : Parent} {left right : AuthenticatedRoundV2}
    (accepts : parent.Accepts p left) (same : left.core = right.core) : parent.Accepts p right := by
  obtain ⟨height, head, frontier, sampler, tokens, digest⟩ := accepts
  rw [same] at height head frontier sampler tokens digest
  exact ⟨height, head, frontier, sampler, tokens, digest⟩

/-- What `reserve` knows when it writes a new reservation. -/
structure ReserveAdmitted (p : Primitives) (journal : Journal) (request : AuthenticatedRoundV2) : Prop where
  settled : journal.pendingActivation = none
  verified : request.verifyHistorical p journal.session.core journal.key = .ok ()
  notRetired : ∀ tombstone, journal.tombstones.lookup request.core.requestId = some tombstone →
    tombstone.requestId ≠ request.core.requestId
  notCompleted : journal.completions.lookup request.core.requestId = none
  notPrepared : journal.prepared.lookup request.core.requestId = none
  notReserved : journal.reservations.lookup request.core.requestId = none
  opened : ∃ token outputOrdinal, journal.frontier = .opened token outputOrdinal
  parents : journal.parent.Accepts p request
  notBusy : ∀ requestId reservation, journal.reservations.lookup requestId = some reservation →
    reservation.request.core.baseHeadSha256 = journal.headSha256 →
    reservation.request.core.requestId = request.core.requestId

theorem reserveFresh_none (checked : journal.reserveFresh p request fence nowUnixMs = .ok none) :
    (∃ token outputOrdinal, journal.frontier = .opened token outputOrdinal) ∧ journal.parent.Accepts p request ∧
      ∀ requestId reservation, journal.reservations.lookup requestId = some reservation →
        reservation.request.core.baseHeadSha256 = journal.headSha256 →
        reservation.request.core.requestId = request.core.requestId := by
  rw [Journal.reserveFresh, check_eq_ok_iff, check_eq_ok_iff, check_eq_ok_iff] at checked
  obtain ⟨_, terminal, _, checked⟩ := checked
  have opened : ∃ token outputOrdinal, journal.frontier = .opened token outputOrdinal := by
    cases frontier : journal.frontier with
    | opened token outputOrdinal => exact ⟨token, outputOrdinal, rfl⟩
    | closed reason => simp [frontier] at terminal
  split at checked
  · rename_i matched
    rw [check_eq_ok_iff, reject_eq_ok_iff, Table.any_entries_eq_false] at checked
    refine ⟨opened, matchesCurrentParent_iff.mp matched, fun requestId reservation found same => ?_⟩
    have free := checked.1 requestId reservation found
    simpa [same] using free
  · simp [pure, Except.pure] at checked

theorem reserveCheck_none
    (checked : journal.reserveCheck p request fence nowUnixMs = .ok none) : ReserveAdmitted p journal request := by
  rw [Journal.reserveCheck, check_eq_ok_iff, check_eq_ok_iff, check_eq_ok_iff] at checked
  obtain ⟨settled, verified, retired, checked⟩ := checked
  rw [reject_eq_ok_iff] at settled retired
  cases completed : journal.completions.lookup request.core.requestId with
  | some result => simp [completed, check_eq_ok_iff, pure, Except.pure] at checked
  | none =>
    cases prepared : journal.prepared.lookup request.core.requestId with
    | some record => simp [completed, prepared, check_eq_ok_iff, pure, Except.pure] at checked
    | none =>
      cases reserved : journal.reservations.lookup request.core.requestId with
      | some record => simp [completed, prepared, reserved, check_eq_ok_iff, pure, Except.pure] at checked
      | none =>
        simp only [completed, prepared, reserved] at checked
        obtain ⟨opened, parents, notBusy⟩ := reserveFresh_none checked
        refine ⟨by simpa using settled, verified, fun tombstone found => ?_, completed, prepared, reserved, opened,
          parents, notBusy⟩
        simpa [found] using retired

/-- What `record_prepared` knows when it writes. -/
structure PrepareAdmitted (p : Primitives) (journal : Journal) (request : AuthenticatedRoundV2)
    (result : AuthenticatedResultV2) : Prop where
  verified : result.verifyAgainst p request journal.session.core = .ok ()
  reserved : ∃ reservation, journal.reservations.lookup request.core.requestId = some reservation ∧
    reservation.request = request
  parents : journal.parent.Accepts p request

theorem preparedCheck_ok {existing : Option Unit}
    (checked : journal.preparedCheck p request result fence nowUnixMs = .ok existing) :
    PrepareAdmitted p journal request result ∧
      (existing = none → journal.prepared.lookup request.core.requestId = none) := by
  rw [Journal.preparedCheck, check_eq_ok_iff, check_eq_ok_iff] at checked
  obtain ⟨_, verified, checked⟩ := checked
  cases reserved : journal.reservations.lookup request.core.requestId with
  | none => simp [reserved] at checked
  | some reservation =>
    simp only [reserved, check_eq_ok_iff, reject_eq_ok_iff, Bool.or_eq_false_iff, bne_eq_false_iff_eq,
      Bool.not_eq_false', matchesCurrentParent_iff] at checked
    obtain ⟨⟨same, parents⟩, checked⟩ := checked
    refine ⟨⟨verified, ⟨reservation, reserved, same⟩, parents⟩, ?_⟩
    rintro rfl
    cases prepared : journal.prepared.lookup request.core.requestId with
    | none => rfl
    | some record => simp [prepared, check_eq_ok_iff, pure, Except.pure] at checked

theorem stageCheck_ok {closure : VerifiedClosureV2 p} {prepared : PreparedRecordV2}
    {receipt : Option RendererStageReceiptV2}
    (checked : journal.stageCheck p request closure = .ok (prepared, receipt)) :
    journal.prepared.lookup request.core.requestId = some prepared ∧
      closure.verifyResult prepared.result = .ok () ∧
      (receipt = none → journal.staged.lookup request.core.requestId = none) := by
  unfold Journal.stageCheck at checked
  cases found : journal.prepared.lookup request.core.requestId with
  | none => simp [found] at checked
  | some record =>
    simp only [found, check_eq_ok_iff] at checked
    obtain ⟨verified, checked⟩ := checked
    cases staged : journal.staged.lookup request.core.requestId with
    | some existing =>
      simp only [staged, check_eq_ok_iff] at checked
      cases checked.2
      exact ⟨rfl, verified, by simp⟩
    | none =>
      simp only [staged] at checked
      cases checked
      exact ⟨rfl, verified, fun _ => rfl⟩

/-- What `commit_and_activate` knows when it writes the commit record. -/
structure CommitAdmitted (p : Primitives) (journal : Journal) (request : AuthenticatedRoundV2)
    (commit : CommitRecordV2) : Prop where
  request_eq : commit.request = request
  notCompleted : journal.completions.lookup request.core.requestId = none
  prepared : ∃ record, journal.prepared.lookup request.core.requestId = some record ∧
    record.result = commit.result ∧ record.requestIntentSha256 = request.intentSha256 p
  staged : ∃ record, journal.staged.lookup request.core.requestId = some record ∧
    record.renderer = commit.renderer ∧ record.resultSha256 = commit.result.recordDigest p
  parents : journal.parent.Accepts p request

/-- A commit is answered already, or admitted. -/
theorem commitCheck_cases {answer : AuthenticatedResultV2 ⊕ CommitRecordV2}
    (checked : journal.commitCheck p request fence nowUnixMs = .ok answer) :
    (∃ result, answer = .inl result ∧ journal.completions.lookup request.core.requestId = some result) ∨
      ∃ commit, answer = .inr commit ∧ CommitAdmitted p journal request commit := by
  rw [Journal.commitCheck, check_eq_ok_iff] at checked
  obtain ⟨_, checked⟩ := checked
  cases completed : journal.completions.lookup request.core.requestId with
  | some result =>
    rw [completed] at checked
    cases checked
    exact .inl ⟨result, rfl, rfl⟩
  | none =>
    cases prepared : journal.prepared.lookup request.core.requestId with
    | none => simp [completed, prepared] at checked
    | some record =>
      cases staged : journal.staged.lookup request.core.requestId with
      | none => simp [completed, prepared, staged] at checked
      | some stage =>
        simp only [completed, prepared, staged, check_eq_ok_iff, reject_eq_ok_iff, Bool.or_eq_false_iff,
          bne_eq_false_iff_eq, Bool.not_eq_false', matchesCurrentParent_iff] at checked
        obtain ⟨⟨⟨intent, digest⟩, parents⟩, answered⟩ := checked
        cases answered
        exact .inr ⟨_, rfl, rfl, completed, ⟨record, prepared, rfl, intent⟩, ⟨stage, staged, rfl, digest⟩, parents⟩

theorem commitCheck_inr {commit : CommitRecordV2}
    (checked : journal.commitCheck p request fence nowUnixMs = .ok (.inr commit)) :
    CommitAdmitted p journal request commit := by
  obtain ⟨_, same, _⟩ | ⟨_, same, admitted⟩ := commitCheck_cases checked
  · cases same
  · exact Sum.inr.inj same ▸ admitted

theorem commitCheck_inl (checked : journal.commitCheck p request fence nowUnixMs = .ok (.inl result)) :
    journal.completions.lookup request.core.requestId = some result := by
  obtain ⟨_, same, found⟩ | ⟨_, same, _⟩ := commitCheck_cases checked
  · exact Sum.inl.inj same ▸ found
  · cases same

theorem ackCheck_some {requestId appliedHeadSha256 : String} {ack : AckRecordV2}
    (checked : journal.ackCheck p requestId appliedHeadSha256 nowUnixMs = .ok (some ack)) :
    ∃ result, journal.completions.lookup requestId = some result ∧
      journal.acknowledgements.lookup requestId = none ∧
      ack = ⟨requestId, result.recordDigest p, result.core.newHeadSha256, nowUnixMs⟩ := by
  rw [Journal.ackCheck, check_eq_ok_iff] at checked
  obtain ⟨_, checked⟩ := checked
  cases completed : journal.completions.lookup requestId with
  | none => simp [completed] at checked
  | some result =>
    simp only [completed, check_eq_ok_iff, reject_eq_ok_iff, bne_eq_false_iff_eq] at checked
    obtain ⟨rfl, checked⟩ := checked
    cases acknowledged : journal.acknowledgements.lookup requestId with
    | some existing => simp [acknowledged, check_eq_ok_iff, pure, Except.pure] at checked
    | none =>
      simp only [acknowledged] at checked
      cases checked
      exact ⟨result, rfl, rfl, rfl⟩

/-- The journal after one verified result. -/
def Journal.advance (journal : Journal) (requestId : String) (result : AuthenticatedResultV2) : Journal :=
  { journal with
    evaluatedTokens := journal.evaluatedTokens ++ result.core.committedTokens
    outputHeight := result.core.newOutputHeight
    headSha256 := result.core.newHeadSha256
    frontier := result.core.newFrontier
    samplerState := result.core.postVerifySamplerState
    completions := journal.completions.insert requestId result }

/-- The parent after one verified result. -/
def Parent.advance (parent : Parent) (result : AuthenticatedResultV2) : Parent where
  evaluatedTokens := parent.evaluatedTokens ++ result.core.committedTokens
  outputHeight := result.core.newOutputHeight
  headSha256 := result.core.newHeadSha256
  frontier := result.core.newFrontier
  samplerState := result.core.postVerifySamplerState

theorem applyActive_ok {after : Journal} (applied : journal.applyActive p request result = .ok after) :
    result.verifyAgainst p request journal.session.core = .ok () ∧
      ((journal.completions.lookup request.core.requestId = some result ∧ after = journal) ∨
        (journal.completions.lookup request.core.requestId = none ∧ journal.parent.Accepts p request ∧
          after = journal.advance request.core.requestId result)) := by
  rw [Journal.applyActive, check_eq_ok_iff] at applied
  obtain ⟨verified, applied⟩ := applied
  refine ⟨verified, ?_⟩
  cases completed : journal.completions.lookup request.core.requestId with
  | some existing =>
    simp only [completed, check_eq_ok_iff, reject_eq_ok_iff, bne_eq_false_iff_eq] at applied
    obtain ⟨rfl, answered⟩ := applied
    cases answered
    exact .inl ⟨rfl, rfl⟩
  | none =>
    simp only [completed, check_eq_ok_iff, reject_eq_ok_iff, Bool.not_eq_false', matchesCurrentParent_iff] at applied
    obtain ⟨parents, answered⟩ := applied
    cases answered
    exact .inr ⟨rfl, parents, rfl⟩

theorem applyActive_fresh {after : Journal} (fresh : journal.completions.lookup request.core.requestId = none)
    (applied : journal.applyActive p request result = .ok after) :
    after = journal.advance request.core.requestId result := by
  obtain ⟨_, ⟨completed, _⟩ | ⟨_, _, same⟩⟩ := applyActive_ok applied
  · rw [fresh] at completed
    cases completed
  · exact same

/-- What a retirement has established before it unlinks anything. -/
theorem retireCheck_cases {journal : Journal} {requestId : String} {nowUnixMs retryRetentionMs : UInt64}
    {tombstone : Option TombstoneRecordV2}
    (checked : journal.retireCheck p requestId nowUnixMs retryRetentionMs = .ok (result, tombstone)) :
    journal.completions.lookup requestId = some result ∧
      ((tombstone = none ∧ ∃ retired, journal.tombstones.lookup requestId = some retired ∧
          retired.resultSha256 = result.recordDigest p) ∨
        (tombstone = some ⟨requestId, result.recordDigest p, nowUnixMs⟩ ∧
          journal.tombstones.lookup requestId = none ∧
          ∃ ack, journal.acknowledgements.lookup requestId = some ack ∧
            ack.resultSha256 = result.recordDigest p)) := by
  unfold Journal.retireCheck at checked
  cases completed : journal.completions.lookup requestId with
  | none => simp [completed] at checked
  | some completion =>
    cases retired : journal.tombstones.lookup requestId with
    | some existing =>
      simp only [completed, retired, check_eq_ok_iff, reject_eq_ok_iff, bne_eq_false_iff_eq] at checked
      obtain ⟨digests, answered⟩ := checked
      cases answered
      exact ⟨rfl, .inl ⟨rfl, existing, rfl, digests⟩⟩
    | none =>
      cases acknowledged : journal.acknowledgements.lookup requestId with
      | none => simp [completed, retired, acknowledged] at checked
      | some ack =>
        simp only [completed, retired, acknowledged, check_eq_ok_iff, reject_eq_ok_iff, Bool.or_eq_false_iff,
          bne_eq_false_iff_eq] at checked
        obtain ⟨⟨digests, _⟩, answered⟩ := checked
        cases answered
        exact ⟨rfl, .inr ⟨rfl, rfl, ack, rfl, digests⟩⟩

end Muser.Verifier
