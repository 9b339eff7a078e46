import Muser.AuthoritativeVerifier.Round

/-! # Signed results and their fragment closures

A result is the target's signed answer to one authenticated round. `verifyAgainst` recomputes every
field that the round determines; its accepted form is summarized by `Answers`. A closure pairs the
descriptors of a result with payloads of the described length and digest, and can only be built so.
-/

namespace Muser.Verifier

def verifierResultProtocolV2 : String := "muser-verifier-result-v2"
def maxFragmentsV2 : ℕ := 4096

inductive ResultDecisionV2 where
  | opened (acceptedDrafts frontierOut : UInt32)
  | closed (commitFrontier : Bool) (acceptedDrafts : UInt32) (reason : FinishReasonV2)
deriving DecidableEq

namespace ResultDecisionV2

instance : ToJson ResultDecisionV2 where
  toJson
    | .opened acceptedDrafts frontierOut =>
      .obj [("accepted_drafts", toJson acceptedDrafts), ("frontier_out", toJson frontierOut), ("kind", .str "open")]
    | .closed commitFrontier acceptedDrafts reason =>
      .obj [("accepted_drafts", toJson acceptedDrafts), ("commit_frontier", toJson commitFrontier),
        ("kind", .str "closed"), ("reason", toJson reason)]

def acceptedDrafts : ResultDecisionV2 → UInt32
  | .opened accepted _ => accepted
  | .closed _ accepted _ => accepted

def committedInputCount : ResultDecisionV2 → Result ℕ
  | .opened accepted _ => pure (accepted.toNat + 1)
  | .closed true accepted _ => pure (accepted.toNat + 1)
  | .closed false accepted _ =>
    if accepted = 0 then pure 0
    else .error (invalid "terminal decision cannot accept drafts without its frontier")

/-- Round-v2 had no authenticated intent, so its historical decisions are not constrained here. -/
def validateForIntent (decision : ResultDecisionV2) (protocol : String) (intent : RoundIntentV2)
    (baseSamplerState postVerifySamplerState : SamplerStateV2) : Result Unit :=
  if protocol = verifierRoundProtocolV2 ∧ intent = .verify then pure ()
  else match intent, decision with
    | .verify, .opened _ _ => pure ()
    | .verify, .closed commitFrontier _ reason =>
      reject (!(commitFrontier && reason == .eos)) (invalid "verify may close only on target-observed EOS")
    | .close requested, .closed commitFrontier accepted returned =>
      reject (commitFrontier || accepted != 0 || requested != returned ||
        baseSamplerState != postVerifySamplerState) (invalid "result does not honor authenticated close intent")
    | .close _, .opened _ _ => .error (invalid "result does not honor authenticated close intent")

end ResultDecisionV2

structure FragmentDescriptorV2 where
  ordinal : UInt32
  componentId : String
  kind : FragmentKindV2
  logicalStart : UInt64
  logicalCount : UInt64
  payloadAbi : String
  bytesPerLogicalRow : UInt64
  byteLen : UInt64
  sha256 : String
deriving DecidableEq

instance : ToJson FragmentDescriptorV2 where
  toJson descriptor := .obj [
    ("byte_len", toJson descriptor.byteLen),
    ("bytes_per_logical_row", toJson descriptor.bytesPerLogicalRow),
    ("component_id", toJson descriptor.componentId),
    ("kind", toJson descriptor.kind),
    ("logical_count", toJson descriptor.logicalCount),
    ("logical_start", toJson descriptor.logicalStart),
    ("ordinal", toJson descriptor.ordinal),
    ("payload_abi", toJson descriptor.payloadAbi),
    ("sha256", toJson descriptor.sha256)]

structure ResultCoreV2 where
  protocol : String
  sessionId : String
  sessionGenesisSha256 : String
  authorityTerm : UInt64
  targetExecutorId : String
  requestId : String
  requestIntentSha256 : String
  baseOutputHeight : UInt64
  baseHeadSha256 : String
  decision : ResultDecisionV2
  committedTokens : List UInt32
  newOutputHeight : UInt64
  newEvaluatedTokensSha256 : String
  newFrontier : FrontierV2
  postVerifySamplerState : SamplerStateV2
  fragmentsSha256 : String
  fragments : List FragmentDescriptorV2
  newHeadSha256 : String
  completedUnixMs : UInt64
deriving DecidableEq

def ResultCoreV2.json (result : ResultCoreV2) : Json := .obj [
  ("authority_term", toJson result.authorityTerm),
  ("base_head_sha256", toJson result.baseHeadSha256),
  ("base_output_height", toJson result.baseOutputHeight),
  ("committed_tokens", toJson result.committedTokens),
  ("completed_unix_ms", toJson result.completedUnixMs),
  ("decision", toJson result.decision),
  ("fragments", toJson result.fragments),
  ("fragments_sha256", toJson result.fragmentsSha256),
  ("new_evaluated_tokens_sha256", toJson result.newEvaluatedTokensSha256),
  ("new_frontier", toJson result.newFrontier),
  ("new_head_sha256", toJson result.newHeadSha256),
  ("new_output_height", toJson result.newOutputHeight),
  ("post_verify_sampler_state", toJson result.postVerifySamplerState),
  ("protocol", toJson result.protocol),
  ("request_id", toJson result.requestId),
  ("request_intent_sha256", toJson result.requestIntentSha256),
  ("session_genesis_sha256", toJson result.sessionGenesisSha256),
  ("session_id", toJson result.sessionId),
  ("target_executor_id", toJson result.targetExecutorId)]

instance : ToJson ResultCoreV2 := ⟨ResultCoreV2.json⟩

structure AuthenticatedResultV2 where
  core : ResultCoreV2
  targetSignatureHex : String
deriving DecidableEq

def AuthenticatedResultV2.json (result : AuthenticatedResultV2) : Json :=
    .obj [("core", toJson result.core), ("target_signature_hex", toJson result.targetSignatureHex)]

instance : ToJson AuthenticatedResultV2 := ⟨AuthenticatedResultV2.json⟩

/-- The value of one lowercase hexadecimal byte. -/
def hexValue (byte : UInt8) : UInt8 := if byte ≤ 0x39 then byte - 0x30 else byte - 0x57

def hexPairs : Bytes → Bytes
  | high :: low :: rest => (hexValue high <<< 4 ||| hexValue low) :: hexPairs rest
  | _ => []

def hexDecode (value : String) (expectedBytes : ℕ) : Result Bytes := do
  reject ((utf8 value).length != expectedBytes * 2 || !(utf8 value).all isHexByte) .authentication
  pure (hexPairs (utf8 value))

/-- One lowercase hexadecimal digit. -/
def hexDigit (value : UInt8) : Char := Char.ofNat (if value < 10 then 0x30 + value.toNat else 0x57 + value.toNat)

def hexEncode (bytes : Bytes) : String :=
  String.ofList (bytes.flatMap fun byte : UInt8 => [hexDigit (byte / 16), hexDigit (byte % 16)])

/-- The target's Ed25519 key pair, as the signatures it makes. -/
structure TargetSigningKeyV2 where
  sign : Bytes → Bytes

def badDescriptor (index : ℕ) (descriptor : FragmentDescriptorV2) : Bool :=
  descriptor.ordinal.toNat != index || descriptor.logicalCount == 0 || descriptor.bytesPerLogicalRow == 0 ||
    descriptor.byteLen == 0 || maxFragmentBytesV2 < descriptor.byteLen.toNat ||
    descriptor.logicalCount.toNat * descriptor.bytesPerLogicalRow.toNat != descriptor.byteLen.toNat

def validateDescriptor (index : ℕ) (descriptor : FragmentDescriptorV2) : Result Unit := do
  validateIdentifier "fragment component" descriptor.componentId
  validateIdentifier "fragment payload ABI" descriptor.payloadAbi
  validateDigest "fragment" descriptor.sha256
  reject (badDescriptor index descriptor) (invalid "fragment descriptor geometry differs")

/-- The loop over descriptors with its running byte total. -/
def validateDescriptorsFrom (index total : ℕ) : List FragmentDescriptorV2 → Result ℕ
  | [] => pure total
  | descriptor :: rest => do
    validateDescriptor index descriptor
    reject (2 ^ 64 ≤ total + descriptor.byteLen.toNat) (invalid "fragment bytes overflow")
    validateDescriptorsFrom (index + 1) (total + descriptor.byteLen.toNat) rest

def validateDescriptors (descriptors : List FragmentDescriptorV2) (sessionLimit : UInt64) : Result Unit := do
  reject (maxFragmentsV2 < descriptors.length) (invalid "too many result fragments")
  let total ← validateDescriptorsFrom 0 0 descriptors
  reject (sessionLimit.toNat < total || maxTotalFragmentBytesV2 < total)
    (invalid "fragment set exceeds byte limit")

/-- Whether a descriptor belongs to a required component. -/
def FragmentRequirementV2.describes (requirement : FragmentRequirementV2) (descriptor : FragmentDescriptorV2) :
    Bool :=
  descriptor.componentId == requirement.componentId && descriptor.kind == requirement.kind

/-- The logical range a component must cover. -/
def coverageRange (result : ResultCoreV2) (request : RoundCoreV2) (coverage : FragmentCoverageV2) :
    UInt64 × UInt64 :=
  match request.intent, coverage with
  | .close _, _ => (request.baseOutputHeight, 0)
  | .verify, .committedInputs => (request.baseOutputHeight, UInt64.ofNat result.committedTokens.length)
  | .verify, .freshTargetRows =>
    (request.baseOutputHeight + 1, UInt64.ofNat request.draftTokens.length + 1)
  | .verify, .roundSingleton => (request.baseOutputHeight, 1)

/-- Consecutive descriptors from `cursor`; answers the end of their range. -/
def coverFrom (cursor : UInt64) : List FragmentDescriptorV2 → Result UInt64
  | [] => pure cursor
  | descriptor :: rest => do
    reject (descriptor.logicalStart != cursor) (invalid "fragment logical coverage has a gap or overlap")
    reject (2 ^ 64 ≤ cursor.toNat + descriptor.logicalCount.toNat) (invalid "fragment logical range overflow")
    coverFrom (cursor + descriptor.logicalCount) rest

def validateCoverage (result : ResultCoreV2) (request : RoundCoreV2) (requirement : FragmentRequirementV2) :
    Result Unit := do
  let rows := result.fragments.filter requirement.describes
  let (start, count) := coverageRange result request requirement.coverage
  if rows.isEmpty then
    reject (count != 0 && requirement.required) (invalid "required result component is absent")
  else
    reject (rows.any fun descriptor => descriptor.payloadAbi != requirement.payloadAbi ||
      descriptor.bytesPerLogicalRow != requirement.bytesPerLogicalRow)
      (invalid "fragment payload ABI differs from session")
    let cursor ← coverFrom start rows
    reject (cursor != start + count) (invalid "fragment logical coverage is incomplete")

def validateClosureGeometry (result : ResultCoreV2) (request : RoundCoreV2) (session : SessionCoreV2) :
    Result Unit := do
  forM session.fragmentRequirements (validateCoverage result request)
  reject (result.fragments.any fun descriptor => !session.fragmentRequirements.any (·.describes descriptor))
    (invalid "result has an undeclared component")

def fragmentSetDigest (p : Primitives) (descriptors : List FragmentDescriptorV2) : String :=
  p.sha256Hex (canonical descriptors)

structure HeadTransitionV2 where
  sessionId : String
  sessionGenesisSha256 : String
  authorityTerm : UInt64
  baseHeadSha256 : String
  baseOutputHeight : UInt64
  committedTokens : List UInt32
  newOutputHeight : UInt64
  newEvaluatedTokensSha256 : String
  newFrontier : FrontierV2
  postVerifySamplerState : SamplerStateV2
  fragmentsSha256 : String
  requestIntentSha256 : String
deriving DecidableEq

instance : ToJson HeadTransitionV2 where
  toJson transition := .obj [
    ("authority_term", toJson transition.authorityTerm),
    ("base_head_sha256", toJson transition.baseHeadSha256),
    ("base_output_height", toJson transition.baseOutputHeight),
    ("committed_tokens", toJson transition.committedTokens),
    ("fragments_sha256", toJson transition.fragmentsSha256),
    ("new_evaluated_tokens_sha256", toJson transition.newEvaluatedTokensSha256),
    ("new_frontier", toJson transition.newFrontier),
    ("new_output_height", toJson transition.newOutputHeight),
    ("post_verify_sampler_state", toJson transition.postVerifySamplerState),
    ("protocol", .str verifierResultProtocolV2),
    ("request_intent_sha256", toJson transition.requestIntentSha256),
    ("session_genesis_sha256", toJson transition.sessionGenesisSha256),
    ("session_id", toJson transition.sessionId)]

/-- The part of a result that its new head commits to. -/
def ResultCoreV2.transition (core : ResultCoreV2) : HeadTransitionV2 where
  sessionId := core.sessionId
  sessionGenesisSha256 := core.sessionGenesisSha256
  authorityTerm := core.authorityTerm
  baseHeadSha256 := core.baseHeadSha256
  baseOutputHeight := core.baseOutputHeight
  committedTokens := core.committedTokens
  newOutputHeight := core.newOutputHeight
  newEvaluatedTokensSha256 := core.newEvaluatedTokensSha256
  newFrontier := core.newFrontier
  postVerifySamplerState := core.postVerifySamplerState
  fragmentsSha256 := core.fragmentsSha256
  requestIntentSha256 := core.requestIntentSha256

def transitionHead (p : Primitives) (core : ResultCoreV2) : String := p.sha256Hex (canonical core.transition)

namespace AuthenticatedResultV2

/-- The tokens a decision commits: the carried frontier and the accepted drafts, or nothing. -/
def expectedCommitted (committedInputCount : ℕ) (frontierIn : UInt32) (drafts : List UInt32) (accepted : ℕ) :
    List UInt32 :=
  if committedInputCount = 0 then [] else frontierIn :: drafts.take accepted

def mismatches (p : Primitives) (core : ResultCoreV2) (request : AuthenticatedRoundV2) (session : SessionCoreV2)
    (outputOrdinal : UInt64) (expected : List UInt32) : Bool :=
  core.protocol != verifierResultProtocolV2 || core.sessionId != session.sessionId ||
    core.sessionGenesisSha256 != session.genesisHeadSha256 || core.authorityTerm != session.authorityTerm ||
    core.targetExecutorId != session.targetExecutorId || core.requestId != request.core.requestId ||
    core.requestIntentSha256 != request.intentSha256 p ||
    core.baseOutputHeight != request.core.baseOutputHeight ||
    core.baseHeadSha256 != request.core.baseHeadSha256 || outputOrdinal != core.baseOutputHeight ||
    core.committedTokens != expected ||
    core.newOutputHeight.toNat != request.core.baseOutputHeight.toNat + expected.length ||
    core.completedUnixMs < request.core.createdUnixMs || request.core.expiresUnixMs < core.completedUnixMs

/-- The frontier after the round agrees with the decision. -/
def frontierFollows (core : ResultCoreV2) (session : SessionCoreV2) : Bool :=
  match core.decision, core.newFrontier with
  | .opened _ frontierOut, .opened token outputOrdinal =>
    frontierOut == token && token < session.vocabSize && outputOrdinal == core.newOutputHeight
  | .closed _ _ reason, .closed frontierReason => reason == frontierReason
  | _, _ => false

def verifyFrontier (p : Primitives) (core : ResultCoreV2) (request : AuthenticatedRoundV2)
    (session : SessionCoreV2) : Result Unit :=
  match request.core.frontierIn with
  | .closed _ => .error .terminal
  | .opened frontierIn outputOrdinal => do
    let accepted := core.decision.acceptedDrafts.toNat
    reject (request.core.draftTokens.length < accepted) (invalid "accepted draft count exceeds request")
    let committedInputCount ← core.decision.committedInputCount
    let expected := expectedCommitted committedInputCount frontierIn request.core.draftTokens accepted
    reject (2 ^ 64 ≤ request.core.baseOutputHeight.toNat + expected.length) (invalid "result height overflow")
    reject (mismatches p core request session outputOrdinal expected)
      (invalid "result does not match its authenticated request")

def verifyAgainst (p : Primitives) (result : AuthenticatedResultV2) (request : AuthenticatedRoundV2)
    (session : SessionCoreV2) : Result Unit := do
  let signature ← hexDecode result.targetSignatureHex 64
  reject (!p.ed25519Verify session.targetPublicKey.toList (canonical result.core) signature) .authentication
  let core := result.core
  core.decision.validateForIntent request.core.protocol request.core.intent request.core.baseSamplerState
    core.postVerifySamplerState
  verifyFrontier p core request session
  reject (!frontierFollows core session) (invalid "result terminal/frontier transition differs")
  core.postVerifySamplerState.validateFor session.couplingPolicy
  validateDigest "new transcript" core.newEvaluatedTokensSha256
  reject (tokenDigest p (request.core.baseEvaluatedTokens ++ core.committedTokens) != core.newEvaluatedTokensSha256)
    (invalid "result transcript commitment differs")
  validateDescriptors core.fragments session.maxTotalFragmentBytes
  validateClosureGeometry core request.core session
  reject (fragmentSetDigest p core.fragments != core.fragmentsSha256) (invalid "result fragment commitment differs")
  reject (core.newHeadSha256 != transitionHead p core) (invalid "result head transition differs")

def recordDigest (p : Primitives) (result : AuthenticatedResultV2) : String := p.sha256Hex (canonical result)

def sign (core : ResultCoreV2) (signer : TargetSigningKeyV2) : AuthenticatedResultV2 :=
  ⟨core, hexEncode (signer.sign (canonical core))⟩

/-- What an accepted result guarantees about its round. -/
structure Answers (p : Primitives) (result : AuthenticatedResultV2) (request : AuthenticatedRoundV2)
    (session : SessionCoreV2) : Prop where
  signatureLength : (utf8 result.targetSignatureHex).length = 128
  signatureHex : (utf8 result.targetSignatureHex).all isHexByte = true
  decision : result.core.decision.validateForIntent request.core.protocol request.core.intent
    request.core.baseSamplerState result.core.postVerifySamplerState = .ok ()
  accepted : result.core.decision.acceptedDrafts.toNat ≤ request.core.draftTokens.length
  committed : ∃ frontierIn count, request.core.frontierIn = .opened frontierIn request.core.baseOutputHeight ∧
    result.core.decision.committedInputCount = .ok count ∧
    result.core.committedTokens = expectedCommitted count frontierIn request.core.draftTokens
      result.core.decision.acceptedDrafts.toNat
  protocol : result.core.protocol = verifierResultProtocolV2
  sessionId : result.core.sessionId = session.sessionId
  genesis : result.core.sessionGenesisSha256 = session.genesisHeadSha256
  executor : result.core.targetExecutorId = session.targetExecutorId
  requestId : result.core.requestId = request.core.requestId
  intent : result.core.requestIntentSha256 = request.intentSha256 p
  baseHead : result.core.baseHeadSha256 = request.core.baseHeadSha256
  newHeight : result.core.newOutputHeight.toNat =
    request.core.baseOutputHeight.toNat + result.core.committedTokens.length
  frontier : frontierFollows result.core session = true
  sampler : result.core.postVerifySamplerState.validateFor session.couplingPolicy = .ok ()
  transcript : tokenDigest p (request.core.baseEvaluatedTokens ++ result.core.committedTokens) =
    result.core.newEvaluatedTokensSha256
  descriptors : validateDescriptors result.core.fragments session.maxTotalFragmentBytes = .ok ()
  fragments : fragmentSetDigest p result.core.fragments = result.core.fragmentsSha256
  newHead : result.core.newHeadSha256 = transitionHead p result.core

variable {request : AuthenticatedRoundV2} {session : SessionCoreV2} {p : Primitives} {result : AuthenticatedResultV2}

private theorem verifyFrontier_committed {core : ResultCoreV2}
    (accepted : verifyFrontier p core request session = .ok ()) :
    ∃ frontierIn count outputOrdinal, request.core.frontierIn = .opened frontierIn outputOrdinal ∧
      core.decision.acceptedDrafts.toNat ≤ request.core.draftTokens.length ∧
      core.decision.committedInputCount = .ok count ∧
      mismatches p core request session outputOrdinal
        (expectedCommitted count frontierIn request.core.draftTokens core.decision.acceptedDrafts.toNat) = false := by
  unfold verifyFrontier at accepted
  cases frontier : request.core.frontierIn with
  | closed reason => simp [frontier] at accepted
  | opened frontierIn outputOrdinal =>
    simp only [frontier, bind_eq_ok_iff, reject_eq_ok_iff, decide_eq_false_iff_not,
      Nat.not_lt] at accepted
    obtain ⟨_, bound, count, counted, _, _, matched⟩ := accepted
    exact ⟨frontierIn, count, outputOrdinal, rfl, bound, counted, matched⟩

/-- An accepted result answers its round. -/
theorem verifyAgainst_answers (accepted : result.verifyAgainst p request session = .ok ()) :
    result.Answers p request session := by
  rw [verifyAgainst, bind_eq_ok_iff] at accepted
  obtain ⟨signature, decoded, accepted⟩ := accepted
  simp only [check_eq_ok_iff, reject_eq_ok_iff, validateDigest_ok_iff] at accepted
  obtain ⟨_, decision, committed, frontier, sampler, _, transcript, descriptors, _, fragments, newHead⟩ := accepted
  obtain ⟨frontierIn, count, outputOrdinal, opened, bound, counted, matched⟩ := verifyFrontier_committed committed
  simp only [hexDecode, check_eq_ok_iff, reject_eq_ok_iff, Bool.or_eq_false_iff, bne_eq_false_iff_eq,
    Bool.not_eq_false'] at decoded
  simp only [mismatches, Bool.or_eq_false_iff, bne_eq_false_iff_eq] at matched
  obtain ⟨⟨⟨⟨⟨⟨⟨⟨⟨⟨⟨⟨⟨protocol, sessionId⟩, genesis⟩, _⟩, executor⟩, requestId⟩, intent⟩, baseHeight⟩, baseHead⟩,
    ordinal⟩, tokens⟩, newHeight⟩, _⟩, _⟩ := matched
  exact {
    signatureLength := decoded.1.1
    signatureHex := decoded.1.2
    decision
    accepted := bound
    committed := ⟨frontierIn, count, by rw [opened, ordinal, baseHeight], counted, tokens⟩
    protocol, sessionId, genesis, executor, requestId, intent, baseHead
    newHeight := tokens ▸ newHeight
    frontier := by simpa using frontier
    sampler
    transcript := by simpa using transcript
    descriptors
    fragments := by simpa using fragments
    newHead := by simpa using newHead }

/-- A result commits no more positions than its round asked for. -/
theorem Answers.committed_length_le (answers : result.Answers p request session) :
    result.core.committedTokens.length ≤ request.core.contextInputs := by
  obtain ⟨frontierIn, count, _, counted, tokens⟩ := answers.committed
  have bound := answers.accepted
  have decided := answers.decision
  have taken : result.core.committedTokens.length ≤ 1 + request.core.draftTokens.length := by
    rw [tokens, expectedCommitted]
    split
    · simp
    · simp only [List.length_cons, List.length_take]
      lia
  unfold RoundCoreV2.contextInputs
  cases intent : request.core.intent with
  | verify => exact taken
  | close reason =>
    -- A close intent is honored only by a decision that commits nothing.
    cases decision : result.core.decision with
    | opened acceptedDrafts frontierOut => simp [ResultDecisionV2.validateForIntent, intent, decision] at decided
    | closed commitFrontier acceptedDrafts returned =>
      simp only [ResultDecisionV2.validateForIntent, intent, decision, reduceCtorEq, and_false, if_false,
        reject_eq_ok_iff, Bool.or_eq_false_iff, bne_eq_false_iff_eq] at decided
      obtain ⟨⟨⟨rfl, rfl⟩, _⟩, _⟩ := decided
      rw [decision] at counted
      cases counted
      simp [tokens, expectedCommitted]

theorem Answers.committed_inVocabulary (answers : result.Answers p request session)
    (historical : request.core.Historical p session) :
    ∀ token ∈ result.core.committedTokens, token < session.vocabSize := by
  obtain ⟨frontierIn, count, opened, _, tokens⟩ := answers.committed
  obtain ⟨carried, carriedOpen, carriedSmall⟩ := historical.frontier
  have same : frontierIn = carried := by
    rw [opened] at carriedOpen
    exact (FrontierV2.opened.inj carriedOpen).1
  intro token member
  rw [tokens, expectedCommitted] at member
  split at member
  · simp at member
  · rcases List.mem_cons.mp member with rfl | drafted
    · exact same ▸ carriedSmall
    · exact historical.inVocabulary token (List.mem_append_right _ (List.mem_of_mem_take drafted))

/-- An open frontier after the round stands at the new height, inside the vocabulary. -/
theorem Answers.frontier_opened (answers : result.Answers p request session) {token : UInt32} {outputOrdinal : UInt64}
    (opened : result.core.newFrontier = .opened token outputOrdinal) :
    outputOrdinal = result.core.newOutputHeight ∧ token < session.vocabSize := by
  have follows := answers.frontier
  unfold frontierFollows at follows
  rw [opened] at follows
  cases decision : result.core.decision with
  | opened accepted frontierOut =>
    simp only [decision, Bool.and_eq_true, beq_iff_eq, decide_eq_true_eq] at follows
    exact ⟨follows.2, follows.1.2⟩
  | closed commitFrontier accepted reason => simp [decision] at follows

end AuthenticatedResultV2

/-- The frontier that a decision leads to. -/
def ResultDecisionV2.frontierAfter (decision : ResultDecisionV2) (newOutputHeight : UInt64) : FrontierV2 :=
  match decision with
  | .opened _ frontierOut => .opened frontierOut newOutputHeight
  | .closed _ _ reason => .closed reason

/-- The fields of a new result, before its head is known. -/
def unlinkedResult (p : Primitives) (request : AuthenticatedRoundV2) (session : SessionCoreV2)
    (decision : ResultDecisionV2) (committedTokens : List UInt32) (newOutputHeight : UInt64)
    (postVerifySamplerState : SamplerStateV2) (fragments : List FragmentDescriptorV2) (completedUnixMs : UInt64) :
    ResultCoreV2 where
  protocol := verifierResultProtocolV2
  sessionId := session.sessionId
  sessionGenesisSha256 := session.genesisHeadSha256
  authorityTerm := session.authorityTerm
  targetExecutorId := session.targetExecutorId
  requestId := request.core.requestId
  requestIntentSha256 := request.intentSha256 p
  baseOutputHeight := request.core.baseOutputHeight
  baseHeadSha256 := request.core.baseHeadSha256
  decision
  committedTokens
  newOutputHeight
  newEvaluatedTokensSha256 := tokenDigest p (request.core.baseEvaluatedTokens ++ committedTokens)
  newFrontier := decision.frontierAfter newOutputHeight
  postVerifySamplerState
  fragmentsSha256 := fragmentSetDigest p fragments
  fragments
  newHeadSha256 := zeroDigest
  completedUnixMs

/-- Derive the head of a result from its other fields. -/
def ResultCoreV2.linked (p : Primitives) (core : ResultCoreV2) : ResultCoreV2 :=
  { core with newHeadSha256 := transitionHead p core }

def buildResult (p : Primitives) (request : AuthenticatedRoundV2) (session : SessionCoreV2)
    (decision : ResultDecisionV2) (postVerifySamplerState : SamplerStateV2) (fragments : List FragmentDescriptorV2)
    (completedUnixMs : UInt64) (signer : TargetSigningKeyV2) : Result AuthenticatedResultV2 := do
  decision.validateForIntent request.core.protocol request.core.intent request.core.baseSamplerState
    postVerifySamplerState
  let accepted := decision.acceptedDrafts.toNat
  match request.core.frontierIn with
  | .closed _ => .error .terminal
  | .opened frontierIn _ =>
    reject (request.core.draftTokens.length < accepted || request.core.expiresUnixMs < completedUnixMs)
      (invalid "target decision or completion time differs")
    postVerifySamplerState.validateFor session.couplingPolicy
    let committedInputCount ← decision.committedInputCount
    let committedTokens :=
      AuthenticatedResultV2.expectedCommitted committedInputCount frontierIn request.core.draftTokens accepted
    reject (2 ^ 64 ≤ request.core.baseOutputHeight.toNat + committedTokens.length) (invalid "result height overflow")
    let core := (unlinkedResult p request session decision committedTokens
      (request.core.baseOutputHeight + UInt64.ofNat committedTokens.length) postVerifySamplerState fragments
      completedUnixMs).linked p
    let result := AuthenticatedResultV2.sign core signer
    result.verifyAgainst p request session
    pure result

/-- A payload of the described length and digest. -/
def FragmentDescriptorV2.Describes (p : Primitives) (descriptor : FragmentDescriptorV2) (payload : Bytes) : Prop :=
  payload.length = descriptor.byteLen.toNat ∧ p.sha256Hex payload = descriptor.sha256

structure VerifiedFragmentV2 where
  descriptor : FragmentDescriptorV2
  payload : Bytes

/-- The complete payloads of one result; every fragment carries the bytes its descriptor commits to. -/
structure VerifiedClosureV2 (p : Primitives) where
  resultSha256 : String
  fragments : List VerifiedFragmentV2
  described : ∀ fragment ∈ fragments, fragment.descriptor.Describes p fragment.payload

namespace VerifiedClosureV2

variable {p : Primitives}

def verifyResult (closure : VerifiedClosureV2 p) (result : AuthenticatedResultV2) : Result Unit :=
  reject (closure.resultSha256 != result.recordDigest p ||
    closure.fragments.map (·.descriptor) != result.core.fragments)
    (invalid "verified closure belongs to a different result")

theorem verifyResult_descriptors {closure : VerifiedClosureV2 p} {result : AuthenticatedResultV2}
    (accepted : closure.verifyResult result = .ok ()) :
    closure.fragments.map (·.descriptor) = result.core.fragments := by
  simp only [verifyResult, reject_eq_ok_iff, Bool.or_eq_false_iff, bne_eq_false_iff_eq] at accepted
  exact accepted.2

end VerifiedClosureV2

/-- The payloads received so far, beside the descriptors of one verified result. -/
structure FragmentAssemblerV2 (p : Primitives) where
  resultSha256 : String
  slots : List (FragmentDescriptorV2 × Option Bytes)
  described : ∀ slot ∈ slots, ∀ payload ∈ slot.2, slot.1.Describes p payload

namespace FragmentAssemblerV2

variable {p : Primitives}

def new (result : AuthenticatedResultV2) (request : AuthenticatedRoundV2) (session : SessionCoreV2) :
    Result (FragmentAssemblerV2 p) := do
  result.verifyAgainst p request session
  pure {
    resultSha256 := result.recordDigest p
    slots := result.core.fragments.map fun descriptor => (descriptor, none)
    described := by simp }

/-- Take one payload for an ordinal; answers whether it was new. A refused one leaves what is there. -/
def insert (assembler : FragmentAssemblerV2 p) (ordinal : UInt32) (payload : Bytes) :
    Result Bool × FragmentAssemblerV2 p :=
  match assembler.slots[ordinal.toNat]? with
  | none => (.error (invalid "fragment ordinal is out of range"), assembler)
  | some (descriptor, received) =>
    if described : payload.length = descriptor.byteLen.toNat ∧ p.sha256Hex payload = descriptor.sha256 then
      match received with
      | some existing =>
        if existing = payload then (.ok false, assembler)
        else (.error (invalid "duplicate fragment has different bytes"), assembler)
      | none => (.ok true, {
          assembler with
          slots := assembler.slots.set ordinal.toNat (descriptor, some payload)
          described := by
            intro slot member filled stored
            rcases List.mem_or_eq_of_mem_set member with earlier | rfl
            · exact assembler.described slot earlier filled stored
            · cases stored
              exact described })
    else (.error (invalid "fragment payload digest or length differs"), assembler)

def missingOrdinals (assembler : FragmentAssemblerV2 p) : List UInt32 :=
  (assembler.slots.zipIdx.filter (·.1.2.isNone)).map fun slot => UInt32.ofNat slot.2

/-- The fragment of a filled slot. -/
def filled (slot : FragmentDescriptorV2 × Option Bytes) : Option VerifiedFragmentV2 :=
  slot.2.map fun payload => ⟨slot.1, payload⟩

def finish (assembler : FragmentAssemblerV2 p) : Result (VerifiedClosureV2 p) := do
  reject (assembler.slots.any (·.2.isNone)) .incomplete
  pure {
    resultSha256 := assembler.resultSha256
    fragments := assembler.slots.filterMap filled
    described := by
      intro fragment member
      obtain ⟨slot, present, kept⟩ := List.mem_filterMap.mp member
      obtain ⟨payload, stored, rfl⟩ := Option.map_eq_some_iff.mp kept
      exact assembler.described slot present payload stored }

end FragmentAssemblerV2

end Muser.Verifier
