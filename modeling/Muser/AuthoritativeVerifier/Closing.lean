import Muser.AuthoritativeVerifier.Completion
import Muser.AuthoritativeVerifier.Current

/-! # Closing a session

A round without drafts can be built at every parent that a journal stands at. One that asks to close
needs no position beyond the transcript, so it is accepted at the limit of the context too, and its
answer commits nothing. It is refused where another round is reserved at the same head.
-/

namespace Muser.Verifier

variable {p : Primitives}

/-! ## Rounds without drafts -/

section Rounds

/-- A round for the current parent that proposes no drafts. -/
def Journal.roundHere (p : Primitives) (journal : Journal) (intent : RoundIntentV2) (draftEvidence : DraftEvidenceV2)
    (requestId : String) (createdUnixMs expiresUnixMs : UInt64) : RoundCoreV2 where
  protocol := verifierRoundProtocolV3
  intent
  sessionId := journal.session.core.sessionId
  sessionGenesisSha256 := journal.session.core.genesisHeadSha256
  authorityTerm := journal.session.core.authorityTerm
  requestId
  createdUnixMs
  expiresUnixMs
  hmacKeyId := journal.session.core.hmacKeyId
  hmacKeyEpoch := journal.session.core.hmacKeyEpoch
  baseOutputHeight := journal.outputHeight
  baseHeadSha256 := journal.headSha256
  baseEvaluatedTokens := journal.evaluatedTokens
  baseTokensSha256 := tokenDigest p journal.evaluatedTokens
  frontierIn := journal.frontier
  draftTokens := []
  draftEvidence
  baseSamplerState := journal.samplerState
  postDraftSamplerState := journal.samplerState

/-- A round that asks to close the session. -/
def Journal.closeRound (p : Primitives) (journal : Journal) (reason : FinishReasonV2) (requestId : String)
    (createdUnixMs expiresUnixMs : UInt64) : RoundCoreV2 :=
  journal.roundHere p (.close reason) .none requestId createdUnixMs expiresUnixMs

/-- A lifetime within that of the session. -/
structure SessionCoreV2.Spans (session : SessionCoreV2) (createdUnixMs expiresUnixMs : UInt64) : Prop where
  created : session.createdUnixMs ≤ createdUnixMs
  ordered : createdUnixMs < expiresUnixMs
  expires : expiresUnixMs ≤ session.expiresUnixMs

/-- The evidence of no drafts, as the policy of the session wants it. -/
def CouplingPolicyV2.NoDrafts : CouplingPolicyV2 → DraftEvidenceV2 → Prop
  | .greedy, .none => True
  | .sharedGumbel, .sharedGumbel witnessSha256 => isDigest witnessSha256 = true
  | .sparseMaximal _, .sparseMaximal qRows => qRows = []
  | _, _ => False

variable {journal : Journal} {intent : RoundIntentV2} {evidence : DraftEvidenceV2} {requestId : String}
  {createdUnixMs expiresUnixMs : UInt64} {token : UInt32} {outputOrdinal : UInt64}

/-- A round without drafts is accepted as far as its positions fit and its evidence is right. -/
theorem roundHere_validates_iff (steady : journal.parent.Steady journal.session.core)
    (opened : journal.frontier = .opened token outputOrdinal) (named : isIdentifier requestId = true)
    (spans : journal.session.core.Spans createdUnixMs expiresUnixMs) :
    (journal.roundHere p intent evidence requestId createdUnixMs expiresUnixMs).validateHistorical p
      journal.session.core = .ok () ↔
      journal.evaluatedTokens.length +
          (journal.roundHere p intent evidence requestId createdUnixMs expiresUnixMs).contextInputs ≤
            journal.session.core.maxContextTokens.toNat ∧
        (journal.roundHere p intent evidence requestId createdUnixMs expiresUnixMs).validateEvidence p
          journal.session.core = .ok () := by
  generalize made : journal.roundHere p intent evidence requestId createdUnixMs expiresUnixMs = round
  obtain ⟨sound, sampler, head⟩ := steady
  have tokens : round.baseEvaluatedTokens = journal.evaluatedTokens := made ▸ rfl
  have drafts : round.draftTokens = [] := made ▸ rfl
  have height : round.baseOutputHeight = journal.outputHeight := made ▸ rfl
  have protocol : round.compatibleProtocol = true := by
    rw [← made]
    cases intent <;> rfl
  have address : round.wrongAddress journal.session.core = false := by
    rw [RoundCoreV2.wrongAddress, protocol]
    simp only [← made, Journal.roundHere, Bool.not_true, bne_self_eq_false, Bool.false_or, Bool.or_eq_false_iff,
      decide_eq_false_iff_not, UInt64.not_lt, UInt64.not_le]
    exact ⟨⟨spans.created, spans.ordered⟩, spans.expires⟩
  have candidates : round.badCandidates p journal.session.core = false := by
    simp only [RoundCoreV2.badCandidates, ← made, Journal.roundHere, bne_self_eq_false, Bool.false_or,
      List.append_nil, List.length_nil, Bool.or_eq_false_iff, decide_eq_false_iff_not, Nat.not_lt, List.any_eq_false,
      decide_eq_true_eq, UInt32.not_le, Nat.zero_le, and_true]
    exact ⟨sound.context, sound.vocabulary⟩
  have generated : (round.baseOutputHeight - journal.session.core.initialOutputHeight).toNat =
      journal.evaluatedTokens.length - journal.session.core.initialEvaluatedTokens.length := by
    have above : journal.session.core.initialOutputHeight ≤ journal.outputHeight := sound.height
    rw [height, UInt64.toNat_sub_of_le _ _ above]
    exact sound.length.symm
  have longer : journal.session.core.initialEvaluatedTokens.length ≤ journal.evaluatedTokens.length :=
    sound.startsWith.length_le
  have transcript : round.badTranscript journal.session.core
    (round.baseOutputHeight - journal.session.core.initialOutputHeight).toNat =
      false ↔ journal.evaluatedTokens.length + round.contextInputs ≤ journal.session.core.maxContextTokens.toNat := by
    have starts : journal.session.core.initialEvaluatedTokens.isPrefixOf journal.evaluatedTokens = true :=
      List.isPrefixOf_iff_prefix.mpr sound.startsWith
    rw [generated, RoundCoreV2.badTranscript, tokens, starts, Nat.add_sub_cancel' longer]
    simp only [bne_self_eq_false, Bool.not_true, Bool.false_or, decide_eq_false_iff_not, Nat.not_lt]
  have frontier : round.validateFrontier journal.session.core = .ok () := by
    obtain ⟨ordinal, small⟩ := sound.frontier token outputOrdinal opened
    refine RoundCoreV2.validateFrontier_ok_iff.mpr ⟨token, ?_, small⟩
    rw [height, ← made]
    exact opened.trans (congrArg _ ordinal)
  have base : round.baseSamplerState = journal.samplerState ∧ round.postDraftSamplerState = journal.samplerState :=
    made ▸ ⟨rfl, rfl⟩
  have sampled : journal.samplerState.validateFor journal.session.core.couplingPolicy = .ok () := sampler
  have digests : isDigest round.baseHeadSha256 = true ∧ isDigest round.baseTokensSha256 = true ∧
      isIdentifier round.requestId = true :=
    made ▸ ⟨head, p.sha256Hex_isDigest _, named⟩
  have notBefore : ¬round.baseOutputHeight < journal.session.core.initialOutputHeight := by
    rw [height]
    exact UInt64.not_lt.mpr sound.height
  simp only [RoundCoreV2.validateHistorical, check_eq_ok_iff, reject_eq_ok_iff, validateIdentifier_ok_iff,
    validateDigest_ok_iff,
    address, candidates, transcript, frontier, base, sampled, digests, notBefore, decide_false, true_and]

theorem closeRound_validates {reason : FinishReasonV2} (ordinary : reason ≠ .eos)
    (steady : journal.parent.Steady journal.session.core) (opened : journal.frontier = .opened token outputOrdinal)
    (named : isIdentifier requestId = true) (spans : journal.session.core.Spans createdUnixMs expiresUnixMs) :
    (journal.closeRound p reason requestId createdUnixMs expiresUnixMs).validateHistorical p journal.session.core =
      .ok () := by
  rw [Journal.closeRound, roundHere_validates_iff steady opened named spans]
  refine ⟨steady.sound.context, ?_⟩
  simp [RoundCoreV2.validateEvidence, Journal.roundHere, ordinary]

/-- A full generator state reads and writes back the same. -/
theorem fromMt_toMt {state : List UInt32} {index : UInt32} (full : (SamplerStateV2.mt19937 state index).wellFormed = true) :
    ∃ snapshot, (SamplerStateV2.mt19937 state index).toMt = .ok snapshot ∧
      SamplerStateV2.fromMt snapshot = .ok (.mt19937 state index) := by
  have geometry := full
  simp only [SamplerStateV2.wellFormed, Bool.and_eq_true, beq_iff_eq, decide_eq_true_eq] at geometry
  have inside : ¬624 < index := UInt32.not_lt.mpr geometry.2
  have small : ¬2 ^ 32 ≤ index.toNat := Nat.not_le.mpr index.toNat_lt
  refine ⟨⟨state, index.toNat⟩, ?_, ?_⟩
  · simp [SamplerStateV2.toMt, geometry.1, inside, reject, pure, Except.pure, bind, Except.bind]
  · simp only [SamplerStateV2.fromMt, decide_eq_false small, UInt32.ofNat_toNat, check_eq_ok_iff,
      SamplerStateV2.validate, full,
      reject_eq_ok_iff, Bool.not_true, true_and]
    rfl

/-- A round to verify no drafts needs one position beyond the transcript. -/
theorem emptyRound_validates_iff (steady : journal.parent.Steady journal.session.core)
    (opened : journal.frontier = .opened token outputOrdinal) (named : isIdentifier requestId = true)
    (spans : journal.session.core.Spans createdUnixMs expiresUnixMs)
    (fits : journal.session.core.couplingPolicy.NoDrafts evidence) :
    (journal.roundHere p .verify evidence requestId createdUnixMs expiresUnixMs).validateHistorical p
      journal.session.core = .ok () ↔
      journal.evaluatedTokens.length < journal.session.core.maxContextTokens.toNat := by
  have right : (journal.roundHere p .verify evidence requestId createdUnixMs expiresUnixMs).validateEvidence p
      journal.session.core = .ok () := by
    have sampled : journal.samplerState.validateFor journal.session.core.couplingPolicy = .ok () := steady.sampler
    simp only [RoundCoreV2.validateEvidence, Journal.roundHere]
    generalize journal.session.core.couplingPolicy = policy at sampled fits
    cases policy with
    | greedy =>
      cases evidence with
      | none => simp
      | sparseMaximal | sharedGumbel => exact absurd fits id
    | sharedGumbel =>
      cases evidence with
      | sharedGumbel witnessSha256 =>
        have digest : isDigest witnessSha256 = true := fits
        simp [check_eq_ok_iff, digest]
      | none | sparseMaximal => exact absurd fits id
    | sparseMaximal maxSupport =>
      cases evidence with
      | sparseMaximal qRows =>
        obtain rfl : qRows = [] := fits
        rw [SamplerStateV2.validateFor, SamplerStateV2.validate, check_eq_ok_iff, reject_eq_ok_iff,
          reject_eq_ok_iff] at sampled
        obtain ⟨full, drawn⟩ := sampled
        simp only [RoundCoreV2.validateSparseDrafts, List.length_nil, bne_self_eq_false, check_eq_ok_iff,
          reject_eq_ok_iff, true_and]
        cases state : journal.samplerState with
        | stateless implementation =>
          rw [state] at drawn
          cases drawn
        | mt19937 state index =>
          rw [state, Bool.not_eq_false'] at full
          obtain ⟨snapshot, read, written⟩ := fromMt_toMt full
          simp only [bind_eq_ok_iff, reject_eq_ok_iff, bne_eq_false_iff_eq]
          exact ⟨snapshot, read, snapshot, rfl, _, written, rfl⟩
      | none | sharedGumbel => exact absurd fits id
  rw [roundHere_validates_iff steady opened named spans, and_iff_left right]
  exact Iff.rfl

end Rounds

/-! ## The answer to a closing round -/

section Answer

private theorem domains_allowed : MacKey.domainAllowed verifierRoundMacDomainV3 = true ∧
    MacKey.domainAllowed verifierJournalMacDomainV2 = true ∧
    ∀ directory ∈ [Slot.reservations, .prepared, .staged, .commits, .active, .acks, .tombstones],
      isIdentifier directory.kind = true := by
  decide +kernel

/-- A round that is accepted can be signed, and the signed round is accepted. -/
theorem sign_verifies {core : RoundCoreV2} {session : SessionCoreV2} (key : MacKey)
    (protocol : core.protocol = verifierRoundProtocolV3)
    (valid : core.validateHistorical p session = .ok ()) :
    ∃ request, AuthenticatedRoundV2.sign p core session key = .ok request ∧ request.core = core ∧
      request.verifyHistorical p session key = .ok () := by
  have other : verifierRoundProtocolV3 ≠ verifierRoundProtocolV2 := by decide
  have domain : core.macDomain = .ok verifierRoundMacDomainV3 := by
    rw [RoundCoreV2.macDomain, protocol, if_neg other, if_pos rfl]
    rfl
  have allowed := domains_allowed.1
  have tagged := p.hmacSha256Hex_isDigest key.bytes (MacKey.domainStream verifierRoundMacDomainV3 (canonical core))
  refine ⟨⟨core, p.hmacSha256Hex key.bytes (MacKey.domainStream verifierRoundMacDomainV3 (canonical core))⟩, ?_, rfl, ?_⟩
  · simp [AuthenticatedRoundV2.sign, valid, domain, MacKey.tagDomainHex, allowed, reject, bind, Except.bind,
      pure, Except.pure]
  · refine AuthenticatedRoundV2.verifyHistorical_ok_iff.mpr ⟨valid, tagged, _, domain, ?_⟩
    simp [MacKey.verifyDomainHex, allowed, tagged]

variable {session : SessionCoreV2} {request : AuthenticatedRoundV2} {reason : FinishReasonV2} {signer : TargetSigningKeyV2}
  {completedUnixMs : UInt64}

/-- The result that closes the session at the parent of its round. -/
def closedResult (p : Primitives) (request : AuthenticatedRoundV2) (session : SessionCoreV2) (reason : FinishReasonV2)
    (completedUnixMs : UInt64) (signer : TargetSigningKeyV2) : AuthenticatedResultV2 :=
  .sign ((request.decided p session (.closed false 0 reason) request.core.baseSamplerState [] completedUnixMs).linked
    p) signer

/-- To close, the session requires nothing: not even a fragment of a component that it requires of other rounds. -/
theorem close_satisfied (historical : request.core.Historical p session) (closing : request.core.intent = .close reason)
    (protocol : request.core.protocol = verifierRoundProtocolV3) :
    session.Satisfied p request (.closed false 0 reason) request.core.baseSamplerState [] where
  intent := by
    have other : verifierRoundProtocolV3 ≠ verifierRoundProtocolV2 := by decide
    simp [ResultDecisionV2.validateForIntent, protocol, other, closing]
  accepted := Nat.zero_le _
  vocabulary _ _ same := by cases same
  sampler := historical.baseSampler
  descriptors := by simp [validateDescriptors, validateDescriptorsFrom, bind_eq_ok_iff, pure, Except.pure]
  geometry completedUnixMs := by
    have none : (request.decided p session (.closed false 0 reason) request.core.baseSamplerState []
      completedUnixMs).fragments = [] := rfl
    simp [validateClosureGeometry, check_eq_ok_iff, forM_eq_ok_iff, validateCoverage, none, coverageRange, closing]

theorem closedResult_verified (historical : request.core.Historical p session)
    (closing : request.core.intent = .close reason)
    (protocol : request.core.protocol = verifierRoundProtocolV3) (signs : signer.SignsFor p session)
    (created : request.core.createdUnixMs ≤ completedUnixMs) (expires : completedUnixMs ≤ request.core.expiresUnixMs) :
    (closedResult p request session reason completedUnixMs signer).verifyAgainst p request session = .ok () ∧
      buildResult p request session (.closed false 0 reason) request.core.baseSamplerState [] completedUnixMs signer =
        .ok (closedResult p request session reason completedUnixMs signer) := by
  obtain ⟨token, opened, small⟩ := historical.frontier
  have satisfied := close_satisfied historical closing protocol
  have counted : (ResultDecisionV2.closed false 0 reason).committedInputCount = .ok 0 := rfl
  have nothing : request.committedBy (.closed false 0 reason) = [] := by
    simp [AuthenticatedRoundV2.committedBy, opened, counted, AuthenticatedResultV2.expectedCommitted]
  have fits : request.core.baseOutputHeight.toNat + (request.committedBy (.closed false 0 reason)).length < 2 ^ 64 := by
    rw [nothing]
    exact request.core.baseOutputHeight.toNat_lt
  have verified := (decided_verifyAgainst_iff opened counted satisfied signs fits).mpr ⟨created, expires⟩
  have intime : ¬request.core.expiresUnixMs < completedUnixMs := UInt64.not_lt.mpr expires
  have height : ¬2 ^ 64 ≤ request.core.baseOutputHeight.toNat := Nat.not_le.mpr request.core.baseOutputHeight.toNat_lt
  have made : (unlinkedResult p request session (.closed false 0 reason) [] (request.core.baseOutputHeight + UInt64.ofNat 0)
      request.core.baseSamplerState [] completedUnixMs).linked p =
        (request.decided p session (.closed false 0 reason) request.core.baseSamplerState [] completedUnixMs).linked p := by
    rw [AuthenticatedRoundV2.decided, nothing]
    rfl
  refine ⟨verified, ?_⟩
  simp only [buildResult, satisfied.intent, opened, satisfied.sampler, counted, bind_eq_ok_iff, reject_eq_ok_iff,
    Bool.or_eq_false_iff, decide_eq_false_iff_not]
  refine ⟨(), trivial, (), ⟨?_, intime⟩, (), trivial, 0, rfl, (), ?_, (), ?_, ?_⟩
  · exact Nat.not_lt.mpr (Nat.zero_le _)
  · exact height
  · exact (congrArg (fun core => (AuthenticatedResultV2.sign core signer).verifyAgainst p request session) made).trans
      verified
  · exact congrArg (fun core => Except.ok (AuthenticatedResultV2.sign core signer)) made

end Answer

/-! ## Calls that go through -/

section Calls

/-- A record that is stored and remembered. -/
def World.recorded (p : Primitives) (world : World) (directory : Slot) (requestId : String)
    (record : directory.Record) : World :=
  (world.placeSlot directory (slotStem p requestId) (.whole (sealed p world.journal directory record))).setJournal
    (·.memorize directory requestId record)

theorem World.file_recorded {world : World} {directory other : Slot} {requestId : String} {record : directory.Record}
    (different : other ≠ directory) (requestId' : String) :
    (world.recorded p directory requestId record).file p other requestId' = world.file p other requestId' :=
  World.file_placeSlot_of_ne world (slotStem p requestId) requestId' _ different

variable {world : World} {faults : FileOp → Fault} {requestId : String} {request : AuthenticatedRoundV2}
  {result : AuthenticatedResultV2} {fence : AuthorityFenceV2} {renderer : VerifierRendererV2 p} {nowUnixMs : UInt64}

theorem journalEnvelope_sealed {journal : Journal} (session : isDigest journal.sessionRecordSha256 = true) (directory : Slot)
    (record : directory.Record) :
    journalEnvelope p directory.kind journal.sessionRecordSha256 record journal.key =
      .ok (sealed p journal directory record) := by
  have kind : isIdentifier directory.kind = true := by
    exact domains_allowed.2.2 directory (by cases directory <;> decide)
  have allowed := domains_allowed.2.1
  simp [journalEnvelope, validateIdentifier, validateDigest, kind, session, MacKey.tagDomainHex, allowed, reject,
    bind, Except.bind,
    pure, Except.pure, sealed]

theorem writeSlot_done (done : ∀ operation, faults operation = .done)
    (session : isDigest world.journal.sessionRecordSha256 = true)
    {directory : Slot} (absent : world.file p directory requestId = none) (record : directory.Record) :
    writeSlot p faults directory requestId record world = (.ok (), world.placeSlot directory (slotStem p requestId)
      (.whole (sealed p world.journal directory record))) := by
  rw [World.file] at absent
  rw [writeSlot, Prog.bind_read, journalEnvelope_sealed session, Prog.bind_lift_ok, absent]
  simp only [writeExclusive, done]
  rfl

/-- The parent of the journal waits for a round, and nothing is known under its id. -/
structure World.Ready (p : Primitives) (world : World) (requestId : String) : Prop where
  settled : world.journal.pendingActivation = none
  idle : ∀ other reservation, world.journal.reservations.lookup other = some reservation →
    reservation.request.core.baseHeadSha256 ≠ world.journal.headSha256
  notRetired : world.journal.tombstones.lookup requestId = none
  notCompleted : world.journal.completions.lookup requestId = none
  notReserved : world.journal.reservations.lookup requestId = none
  notPrepared : world.journal.prepared.lookup requestId = none
  notStaged : world.journal.staged.lookup requestId = none
  files : ∀ directory, world.file p directory requestId = none

variable {outputOrdinal : UInt64} {token : UInt32}

theorem reserve_done (done : ∀ operation, faults operation = .done)
    (session : isDigest world.journal.sessionRecordSha256 = true)
    (ready : world.Ready p request.core.requestId) (permitted : world.journal.checkLiveFence fence nowUnixMs = .ok ())
    (live : request.verifyLive p world.journal.session.core world.journal.key nowUnixMs = .ok ())
    (parents : world.journal.matchesCurrentParent p request = true)
    (opened : world.journal.frontier = .opened token outputOrdinal) :
    reserve p faults request fence nowUnixMs world =
      (.ok .reserved, world.recorded p .reservations request.core.requestId ⟨request, nowUnixMs⟩) := by
  have historical := AuthenticatedRoundV2.verifyLive_historical live
  have free : world.journal.reservations.entries.any (fun entry =>
      entry.2.request.core.baseHeadSha256 == world.journal.headSha256 &&
        entry.2.request.core.requestId != request.core.requestId) = false := by
    rw [Table.any_entries_eq_false]
    intro other reservation found
    simp [ready.idle other reservation found]
  have checked : world.journal.reserveCheck p request fence nowUnixMs = .ok none := by
    simp [Journal.reserveCheck, ready.settled, historical, ready.notRetired, ready.notCompleted, ready.notPrepared,
      ready.notReserved, Journal.reserveFresh, permitted, opened, live, parents, free, reject, bind, Except.bind,
        pure, Except.pure]
  rw [reserve, Prog.bind_read, checked, Prog.bind_lift_ok]
  dsimp only
  rw [Prog.bind_of_ok (writeSlot_done done session (ready.files .reservations) _)]
  rfl

theorem recordPrepared_done (done : ∀ operation, faults operation = .done)
    (session : isDigest world.journal.sessionRecordSha256 = true)
    (permitted : world.journal.checkLiveFence fence nowUnixMs = .ok ())
    (verified : result.verifyAgainst p request world.journal.session.core = .ok ()) {reservation : ReservationRecordV2}
    (reserved : world.journal.reservations.lookup request.core.requestId = some reservation)
    (same : reservation.request = request)
    (parents : world.journal.matchesCurrentParent p request = true)
    (notPrepared : world.journal.prepared.lookup request.core.requestId = none)
    (absent : world.file p .prepared request.core.requestId = none) :
    recordPrepared p faults request result fence nowUnixMs world =
      (.ok (), world.recorded p .prepared request.core.requestId ⟨request.intentSha256 p, result, nowUnixMs⟩) := by
  have checked : world.journal.preparedCheck p request result fence nowUnixMs = .ok none := by
    simp [Journal.preparedCheck, permitted, verified, reserved, same, parents, notPrepared, reject, bind, Except.bind,
      pure, Except.pure]
  rw [recordPrepared, Prog.bind_read, checked, Prog.bind_lift_ok]
  dsimp only
  rw [Prog.bind_of_ok (writeSlot_done done session absent _)]
  rfl

/-- A renderer that stages and shows what it is given. -/
structure VerifierRendererV2.Willing (renderer : VerifierRendererV2 p) : Prop where
  stages : ∀ result closure nowUnixMs, ∃ receipt, renderer.stage result closure nowUnixMs = .ok receipt ∧
    validateStageReceipt p receipt result = .ok ()
  activates : ∀ receipt, renderer.activate receipt = .ok ()

theorem stageResult_done (done : ∀ operation, faults operation = .done)
    (session : isDigest world.journal.sessionRecordSha256 = true)
    (willing : renderer.Willing) {prepared : PreparedRecordV2}
    (found : world.journal.prepared.lookup request.core.requestId = some prepared)
    (notStaged : world.journal.staged.lookup request.core.requestId = none)
    (absent : world.file p .staged request.core.requestId = none) {closure : VerifiedClosureV2 p}
    (empty : closure.fragments = [])
    (closes : closure.verifyResult prepared.result = .ok ()) :
    ∃ receipt, validateStageReceipt p receipt prepared.result = .ok () ∧
      stageResult p faults request closure renderer nowUnixMs world =
        (.ok receipt, world.recorded p .staged request.core.requestId ⟨request.core.requestId, prepared.requestIntentSha256,
          prepared.result.recordDigest p, receipt, nowUnixMs⟩) := by
  obtain ⟨receipt, stages, valid⟩ := willing.stages prepared.result closure nowUnixMs
  have checked : world.journal.stageCheck p request closure = .ok (prepared, none) := by
    simp [Journal.stageCheck, found, closes, notStaged, bind, Except.bind, pure, Except.pure]
  refine ⟨receipt, valid, ?_⟩
  rw [stageResult, Prog.bind_read, checked, Prog.bind_lift_ok]
  dsimp only
  rw [empty, stages]
  have nothing : (forM [] (writeFragment faults) : Prog World VerifierV2Error PUnit) = pure () := rfl
  rw [nothing, Prog.bind_pure, Except.mapError, Prog.bind_lift_ok, valid, Prog.bind_lift_ok,
    Prog.bind_of_ok (writeSlot_done done session absent _)]
  rfl

/-- A commit that waits is shown and applied. -/
theorem recoverPending_done (done : ∀ operation, faults operation = .done)
    (session : isDigest world.journal.sessionRecordSha256 = true)
    (willing : renderer.Willing) {commit : CommitRecordV2} (pending : world.journal.pendingActivation = some commit)
    (valid : validateStageReceipt p commit.renderer commit.result = .ok ())
    (verified : commit.result.verifyAgainst p commit.request world.journal.session.core = .ok ())
    (notCompleted : world.journal.completions.lookup commit.request.core.requestId = none)
    (parents : world.journal.matchesCurrentParent p commit.request = true)
    (absent : world.file p .active commit.request.core.requestId = none) :
    ∃ after, recoverPending p faults renderer nowUnixMs world = (.ok (), after) ∧
      after.journal = { world.journal.advance commit.request.core.requestId commit.result with pendingActivation :=
        none } := by
  have shown : ({ world with activations := world.activations ++ [commit.renderer] } : World).file p .active
      (activeRecord p commit nowUnixMs).requestId = none := absent
  have active : ∀ store : World, store.journal = world.journal →
    store.file p .active (activeRecord p commit nowUnixMs).requestId = none →
      writeActive p faults (activeRecord p commit nowUnixMs) store = (.ok (), store.placeSlot .active
        (slotStem p (activeRecord p commit nowUnixMs).requestId)
          (.whole (sealed p store.journal .active (activeRecord p commit nowUnixMs)))) := by
    intro store same free
    have found : (store.disk.slots .active).lookup (slotStem p (activeRecord p commit nowUnixMs).requestId) = none := free
    rw [writeActive, Prog.bind_read, found]
    exact writeSlot_done done (same ▸ session) free _
  have applied : world.journal.applyActive p commit.request commit.result =
      .ok (world.journal.advance commit.request.core.requestId commit.result) := by
    simp [Journal.applyActive, verified, notCompleted, parents, reject, bind, Except.bind, pure, Except.pure,
      Journal.advance]
  rw [recoverPending, Prog.bind_read, pending]
  dsimp only
  rw [valid, Prog.bind_lift_ok, willing.activates, Except.mapError, Prog.bind_lift_ok, Prog.bind_modify]
  have written := active { world with activations := world.activations ++ [commit.renderer] } rfl shown
  generalize stored : World.placeSlot { world with activations := world.activations ++
    [commit.renderer] } .active _ _ = store at written
  have journal : store.journal = world.journal := stored ▸ rfl
  have finished := activateCommit_apply (p := p) commit store
  rw [journal, applied] at finished
  exact ⟨_, (Prog.bind_of_ok written).trans finished, rfl⟩

theorem commitAndActivate_done (done : ∀ operation, faults operation = .done)
    (session : isDigest world.journal.sessionRecordSha256 = true)
    (willing : renderer.Willing) (settled : world.journal.pendingActivation = none)
    (permitted : world.journal.checkLiveFence fence nowUnixMs = .ok ()) {prepared : PreparedRecordV2}
    {staged : StagedRecordV2}
    (notCompleted : world.journal.completions.lookup request.core.requestId = none)
    (found : world.journal.prepared.lookup request.core.requestId = some prepared)
    (found' : world.journal.staged.lookup request.core.requestId = some staged)
    (intent : prepared.requestIntentSha256 = request.intentSha256 p)
    (digest : staged.resultSha256 = prepared.result.recordDigest p)
    (valid : validateStageReceipt p staged.renderer prepared.result = .ok ())
    (verified : prepared.result.verifyAgainst p request world.journal.session.core = .ok ())
    (parents : world.journal.matchesCurrentParent p request = true) (absent : ∀ directory ∈ [Slot.commits, .active],
      world.file p directory request.core.requestId = none) :
    ∃ after, commitAndActivate p faults request fence renderer nowUnixMs world = (.ok prepared.result, after) ∧
      after.journal = { world.journal.advance request.core.requestId prepared.result with pendingActivation := none } := by
  have checked : world.journal.commitCheck p request fence nowUnixMs =
      .ok (.inr ⟨request, prepared.result, staged.renderer, nowUnixMs⟩) := by
    simp [Journal.commitCheck, permitted, notCompleted, found, found', intent, digest, parents, reject, bind,
      Except.bind, pure,
      Except.pure]
  have nothing : recoverPending p faults renderer nowUnixMs world = (.ok (), world) := by
    rw [recoverPending, Prog.bind_read, settled]
    rfl
  rw [commitAndActivate, Prog.bind_of_ok nothing, Prog.bind_read, checked, Prog.bind_lift_ok]
  dsimp only
  rw [Prog.bind_of_ok (writeSlot_done done session (absent .commits (by simp)) _), Prog.bind_modify]
  have waiting : ∃ store : World,
    World.setJournal (world.placeSlot .commits (slotStem p request.core.requestId) (.whole (sealed p
      world.journal .commits ⟨request, prepared.result, staged.renderer, nowUnixMs⟩))) (fun journal =>
        { journal with pendingActivation := some ⟨request, prepared.result, staged.renderer, nowUnixMs⟩ }) = store ∧
      store.journal =
        { world.journal with pendingActivation := some ⟨request, prepared.result, staged.renderer, nowUnixMs⟩ } ∧
      store.file p .active request.core.requestId = none :=
    ⟨_, rfl, rfl, (World.file_placeSlot_of_ne world _ _ _ (by decide)).trans (absent .active (by simp))⟩
  obtain ⟨store, made, journal, free⟩ := waiting
  rw [made]
  obtain ⟨after, ran, final⟩ := @recoverPending_done p store faults renderer nowUnixMs done (journal ▸ session) willing
    ⟨request, prepared.result, staged.renderer,
      nowUnixMs⟩ (journal ▸ rfl) valid (journal ▸ verified) (journal ▸ notCompleted)
    (journal ▸ parents) free
  rw [journal] at final
  have published : after.journal.completions.lookup request.core.requestId = some prepared.result := by
    rw [final]
    exact (Table.lookup_insert_eq ..).trans (if_pos rfl)
  refine ⟨after, ?_, final⟩
  rw [Prog.bind_of_ok ran, Prog.bind_read, published]
  rfl

/-- The four calls of a round that go through, one after another. -/
def World.Settles (p : Primitives) (faults : FileOp → Fault) (request : AuthenticatedRoundV2)
    (result : AuthenticatedResultV2)
    (closure : VerifiedClosureV2 p) (fence : AuthorityFenceV2) (renderer : VerifierRendererV2 p)
    (reservedAt preparedAt stagedAt committedAt : UInt64) (world after : World) : Prop :=
  ∃ first second third receipt,
    reserve p faults request fence reservedAt world = (.ok .reserved, first) ∧
    recordPrepared p faults request result fence preparedAt first = (.ok (), second) ∧
    stageResult p faults request closure renderer stagedAt second = (.ok receipt, third) ∧
    commitAndActivate p faults request fence renderer committedAt third = (.ok result, after)

/-- Nothing outside the journal stands in the way of a round: files are written, the lease is held when it is
asked for, the renderer is willing, and the round is live when it is reserved. -/
structure World.Undisturbed (world : World) (faults : FileOp → Fault) (fence : AuthorityFenceV2)
    (renderer : VerifierRendererV2 p)
    (request : AuthenticatedRoundV2) (reservedAt preparedAt committedAt : UInt64) : Prop where
  done : ∀ operation, faults operation = .done
  permitted : ∀ now ∈ [reservedAt, preparedAt, committedAt], world.journal.checkLiveFence fence now = .ok ()
  willing : renderer.Willing
  live : outsideLifetime request.core.createdUnixMs request.core.expiresUnixMs reservedAt = false

theorem settles {closure : VerifiedClosureV2 p} {reservedAt preparedAt stagedAt committedAt : UInt64}
    (session : isDigest world.journal.sessionRecordSha256 = true) (ready : world.Ready p request.core.requestId)
    (undisturbed : world.Undisturbed faults fence renderer request reservedAt preparedAt committedAt)
    (protocol : request.core.protocol = verifierRoundProtocolV3)
    (historical : request.verifyHistorical p world.journal.session.core world.journal.key = .ok ())
    (parents : world.journal.matchesCurrentParent p request = true)
    (opened : world.journal.frontier = .opened token outputOrdinal)
    (verified : result.verifyAgainst p request world.journal.session.core = .ok ()) (empty : result.core.fragments = [])
    (closes : closure.verifyResult result = .ok ()) :
    ∃ after, world.Settles p faults request result closure fence renderer reservedAt preparedAt stagedAt committedAt after ∧
      after.journal.parent = world.journal.parent.advance result := by
  obtain ⟨done, permitted, willing, live⟩ := undisturbed
  have live : request.verifyLive p world.journal.session.core world.journal.key reservedAt = .ok () := by
    simp [AuthenticatedRoundV2.verifyLive, historical, protocol, live, reject, bind, Except.bind]
  have found : ∀ {α : Type} (table : Table α) (value : α),
    (table.insert request.core.requestId value).lookup request.core.requestId =
      some value := fun table value => (Table.lookup_insert_eq ..).trans (if_pos rfl)
  have reserved := reserve_done done session ready (permitted reservedAt (by simp)) live parents opened
  generalize first_eq : world.recorded p .reservations request.core.requestId ⟨request, reservedAt⟩ = first at reserved
  have first_journal : first.journal = { world.journal with
      reservations := world.journal.reservations.insert request.core.requestId ⟨request, reservedAt⟩ } := first_eq ▸ rfl
  have first_files : ∀ directory ≠ Slot.reservations, first.file p directory request.core.requestId = none := by
    intro directory different
    rw [← first_eq, World.file_recorded different, ready.files]
  have prepared := @recordPrepared_done p first faults request result fence preparedAt done (first_journal ▸ session)
    (first_journal ▸ permitted preparedAt (by simp)) (first_journal ▸ verified) ⟨request,
      reservedAt⟩ (first_journal ▸ found _ _) rfl
    (first_journal ▸ parents) (first_journal ▸ ready.notPrepared) (first_files .prepared (by decide))
  generalize second_eq : first.recorded p .prepared request.core.requestId ⟨request.intentSha256 p, result,
    preparedAt⟩ = second at prepared
  have second_journal : second.journal = { first.journal with
      prepared := first.journal.prepared.insert request.core.requestId ⟨request.intentSha256 p, result,
        preparedAt⟩ } := second_eq ▸ rfl
  have second_files : ∀ directory, directory ≠ Slot.reservations → directory ≠ Slot.prepared →
      second.file p directory request.core.requestId = none := by
    intro directory different different'
    rw [← second_eq, World.file_recorded different', first_files directory different]
  rw [first_journal] at second_journal
  have nothing : closure.fragments = [] := by
    have same := VerifiedClosureV2.verifyResult_descriptors closes
    rw [empty] at same
    exact List.map_eq_nil_iff.mp same
  obtain ⟨receipt, valid, staged⟩ :=
    @stageResult_done p second faults request renderer stagedAt done (second_journal ▸ session) willing
    ⟨request.intentSha256 p, result, preparedAt⟩ (second_journal ▸ found _ _) (second_journal ▸ ready.notStaged)
    (second_files .staged (by decide) (by decide)) closure nothing closes
  dsimp only at valid staged
  generalize third_eq : second.recorded p .staged request.core.requestId ⟨request.core.requestId, request.intentSha256 p,
    result.recordDigest p, receipt, stagedAt⟩ = third at staged
  have third_journal : third.journal = { second.journal with
      staged := second.journal.staged.insert request.core.requestId
        ⟨request.core.requestId, request.intentSha256 p, result.recordDigest p, receipt, stagedAt⟩ } := third_eq ▸ rfl
  rw [second_journal] at third_journal
  have third_files : ∀ directory ∈ [Slot.commits, .active], third.file p directory request.core.requestId = none := by
    intro directory mem
    have different : directory ≠ .reservations ∧ directory ≠ .prepared ∧ directory ≠ .staged := by
      rcases List.mem_cons.mp mem with rfl | mem
      · decide
      · rw [List.mem_singleton.mp mem]
        decide
    rw [← third_eq, World.file_recorded different.2.2, second_files directory different.1 different.2.1]
  obtain ⟨after, committed, final⟩ := @commitAndActivate_done p third faults request fence renderer committedAt done
    (third_journal ▸ session) willing (third_journal ▸ ready.settled) (third_journal ▸ permitted committedAt (by simp))
    ⟨request.intentSha256 p, result, preparedAt⟩ ⟨request.core.requestId, request.intentSha256 p,
      result.recordDigest p, receipt, stagedAt⟩
    (third_journal ▸ ready.notCompleted) (third_journal ▸ found _ _) (third_journal ▸ found _ _) rfl rfl valid
    (third_journal ▸ verified) (third_journal ▸ parents) third_files
  refine ⟨after, ⟨first, second, third, receipt, reserved, prepared, staged, committed⟩, ?_⟩
  rw [final, third_journal]
  rfl

end Calls

/-! ## Every open journal can be closed -/

/-- The session of an open journal can be closed: a closing round for its parent is accepted, and so is the answer that
commits nothing; the calls go through where the parent waits for a round. To verify no drafts takes one position more. -/
structure World.Closable (p : Primitives) (world : World) (requestId : String)
    (createdUnixMs expiresUnixMs : UInt64) : Prop where
  closes : ∀ reason, reason ≠ .eos → ∃ request,
    AuthenticatedRoundV2.sign p (world.journal.closeRound p reason requestId createdUnixMs expiresUnixMs)
      world.journal.session.core
        world.journal.key = .ok request ∧
      request.verifyHistorical p world.journal.session.core world.journal.key = .ok () ∧
      world.journal.matchesCurrentParent p request = true ∧
      ∀ signer : TargetSigningKeyV2, signer.SignsFor p world.journal.session.core → ∀ completedUnixMs,
        createdUnixMs ≤ completedUnixMs → completedUnixMs ≤ expiresUnixMs → ∃ result,
          buildResult p request world.journal.session.core (.closed false 0 reason) world.journal.samplerState []
            completedUnixMs signer =
              .ok result ∧
            result.core.committedTokens = [] ∧ result.core.fragments = [] ∧
            result.verifyAgainst p request world.journal.session.core = .ok () ∧
            (world.Ready p requestId → ∀ faults fence (renderer : VerifierRendererV2 p) (closure : VerifiedClosureV2 p)
              (reservedAt preparedAt stagedAt committedAt : UInt64),
              world.Undisturbed faults fence renderer request reservedAt preparedAt committedAt →
              closure.verifyResult result = .ok () → ∃ after,
                world.Settles p faults request result closure fence renderer reservedAt preparedAt stagedAt
                  committedAt after ∧
                  after.journal.frontier = .closed reason ∧ after.journal.evaluatedTokens = world.journal.evaluatedTokens ∧
                  after.journal.outputHeight = world.journal.outputHeight)
  verifies : ∀ evidence, world.journal.session.core.couplingPolicy.NoDrafts evidence →
    ((world.journal.roundHere p .verify evidence requestId createdUnixMs expiresUnixMs).validateHistorical p
        world.journal.session.core = .ok () ↔
      world.journal.evaluatedTokens.length < world.journal.session.core.maxContextTokens.toNat)

theorem closable_of_steady {world : World} {requestId : String} {createdUnixMs expiresUnixMs : UInt64} {token : UInt32}
    {outputOrdinal : UInt64} (steady : world.journal.parent.Steady world.journal.session.core)
    (session : isDigest world.journal.sessionRecordSha256 = true)
    (opened : world.journal.frontier = .opened token outputOrdinal)
    (named : isIdentifier requestId = true) (spans : world.journal.session.core.Spans createdUnixMs expiresUnixMs) :
    world.Closable p requestId createdUnixMs expiresUnixMs where
  verifies evidence fits := emptyRound_validates_iff steady opened named spans fits
  closes reason ordinary := by
    have validates := closeRound_validates (p := p) ordinary steady opened named spans
    obtain ⟨request, signed, core, verified⟩ := sign_verifies world.journal.key rfl validates
    have historical := AuthenticatedRoundV2.verifyHistorical_historical verified
    have parents : world.journal.matchesCurrentParent p request = true := by
      rw [matchesCurrentParent_iff]
      exact ⟨by rw [core]; rfl, by rw [core]; rfl, by rw [core]; rfl, by rw [core]; rfl, by rw [core]; rfl,
        by rw [core]; rfl⟩
    have fields : request.core.intent = .close reason ∧ request.core.protocol = verifierRoundProtocolV3 ∧
        request.core.baseSamplerState = world.journal.samplerState ∧ request.core.requestId = requestId ∧
        request.core.createdUnixMs = createdUnixMs ∧ request.core.expiresUnixMs = expiresUnixMs ∧
        request.core.frontierIn = world.journal.frontier ∧ request.core.baseOutputHeight = world.journal.outputHeight := by
      rw [core]
      exact ⟨rfl, rfl, rfl, rfl, rfl, rfl, rfl, rfl⟩
    obtain ⟨closing, protocol, base, identified, lives, dies, carried, height⟩ := fields
    refine ⟨request, signed, verified, parents, fun signer signs completedUnixMs created expires => ?_⟩
    obtain ⟨answered, built⟩ := closedResult_verified historical closing protocol signs (lives ▸ created) (dies ▸ expires)
    have nothing : (closedResult p request world.journal.session.core reason completedUnixMs
        signer).core.committedTokens = [] := by
      have none : request.committedBy (.closed false 0 reason) = [] := by
        rw [AuthenticatedRoundV2.committedBy, carried, opened]
        rfl
      exact none
    have newHeight : (closedResult p request world.journal.session.core reason completedUnixMs signer).core.newOutputHeight =
        world.journal.outputHeight := by
      have counted : (closedResult p request world.journal.session.core reason completedUnixMs signer).core.newOutputHeight =
        request.core.baseOutputHeight +
          UInt64.ofNat (closedResult p request world.journal.session.core reason completedUnixMs
          signer).core.committedTokens.length := rfl
      rw [counted, nothing, height]
      exact UInt64.add_zero _
    rw [base] at built
    refine ⟨_, built, nothing, rfl, answered, ?_⟩
    intro ready faults fence renderer closure reservedAt preparedAt stagedAt committedAt undisturbed closes
    obtain ⟨after, settled, final⟩ :=
      settles session (identified ▸ ready) undisturbed protocol verified parents opened answered rfl closes
    refine ⟨after, settled, congrArg Parent.frontier final, ?_, (congrArg Parent.outputHeight final).trans newHeight⟩
    refine (congrArg Parent.evaluatedTokens final).trans ?_
    rw [Parent.advance, nothing]
    exact List.append_nil _

/-- In every state of a created journal whose frontier is open, whatever failed and however often it was opened again. -/
theorem open_journal_closable {session : AuthenticatedSessionV2} {key : MacKey} {nowUnixMs : UInt64} {expectedKeyId : String}
    {minimumEpoch : UInt64} {events : List (Event p)} {start world : World}
    (created : create p session key nowUnixMs expectedKeyId minimumEpoch = .ok start)
    (free : CollisionFree p ((scopeOf events).texts session.core)) (ran : run events start = some world) {token : UInt32}
    {outputOrdinal : UInt64} (opened : world.journal.frontier = .opened token outputOrdinal) {requestId : String}
    (named : isIdentifier requestId = true) {createdUnixMs expiresUnixMs : UInt64}
    (spans : session.core.Spans createdUnixMs expiresUnixMs) :
    world.journal.session = session ∧ world.Closable p requestId createdUnixMs expiresUnixMs := by
  obtain ⟨verified, rfl⟩ := create_ok created
  have valid := AuthenticatedSessionV2.verifyHistorical_valid verified
  have current := run_current free (current_create valid _ key) ran
  refine ⟨current.session_eq, closable_of_steady ?_ ?_ opened named ?_⟩
  · exact current.session_eq ▸ current.parent
  · rw [current.record_eq]
    exact p.sha256Hex_isDigest _
  · exact current.session_eq ▸ spans

section Samples

open Sample

private theorem first_round_evaluated : CollisionFree primitives ((scopeOf firstRound).texts session.core) ∧
    (∃ world ∈ run firstRound start, world.journal.frontier = .opened 8 1) ∧ isIdentifier "close" = true ∧
    session.core.createdUnixMs ≤ 2 ∧ (2 : UInt64) < 900 ∧ 900 ≤ session.core.expiresUnixMs := by
  decide +kernel

/-- The journal can be closed after its first round. -/
theorem open_journal_closable_first_round : ∃ world, run firstRound start = some world ∧ world.journal.session = session ∧
    world.Closable primitives "close" 2 900 := by
  obtain ⟨free, ⟨world, ran, opened⟩, named, spans⟩ := first_round_evaluated
  exact ⟨world, ran, open_journal_closable created free ran opened named ⟨spans.1, spans.2.1, spans.2.2⟩⟩

/-- The closing round of a journal is signed and then refused, since its parent has another round. -/
private def refusesClose (world : World) : Bool :=
  match AuthenticatedRoundV2.sign primitives (world.journal.closeRound primitives .maxTokens "close" 2 900)
    world.journal.session.core
    world.journal.key with
  | .ok request =>
    decide (world.journal.frontier = .opened 3 0) &&
      (match (reserve primitives sound request fence 6 world).1 with
        | .error .busyParent => true
        | _ => false) &&
      !(commitAndActivate primitives sound request fence renderer 7 world).1.isOk
  | .error _ => false

/-- A journal with a reserved round is open and cannot be closed by another one. -/
theorem reserved_journal_refuses_close : ∃ world, run (firstRound.take 1) start = some world ∧
    world.journal.frontier = .opened 3 0 ∧ ∃ request,
      AuthenticatedRoundV2.sign primitives (world.journal.closeRound primitives .maxTokens "close" 2 900)
        world.journal.session.core
        world.journal.key = .ok request ∧
      (reserve primitives sound request fence 6 world).1 = .error .busyParent ∧
      ∀ result, (commitAndActivate primitives sound request fence renderer 7 world).1 ≠ .ok result := by
  have got : ((run (firstRound.take 1) start).filter refusesClose).isSome = true := by decide +kernel
  obtain ⟨world, found⟩ := Option.isSome_iff_exists.mp got
  obtain ⟨ran, is⟩ := Option.filter_eq_some_iff.mp found
  rw [refusesClose] at is
  split at is
  · next request signed =>
    simp only [Bool.and_eq_true, decide_eq_true_eq, Bool.not_eq_true'] at is
    obtain ⟨⟨opened, busy⟩, uncommitted⟩ := is
    refine ⟨world, ran, opened, request, signed, ?_, fun result committed => ?_⟩
    · split at busy
      · assumption
      · cases busy
    · rw [committed] at uncommitted
      cases uncommitted
  · cases is

end Samples

end Muser.Verifier
