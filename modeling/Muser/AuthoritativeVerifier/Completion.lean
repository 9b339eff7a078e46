import Muser.AuthoritativeVerifier.Sample

/-! # Completing an admitted round

A live round may have been created by a clock ahead of the target's, within the allowed skew. Its
result is checked without that allowance, so a target that decides before the round's own creation
time cannot complete it.
-/

namespace Muser.Verifier

/-- The bytes of the two digits of a byte. -/
def hexBytes (byte : UInt8) : Bytes :=
  [hexDigit (byte / 16), hexDigit (byte % 16)].flatMap String.utf8EncodeChar

/-- Both digits are lowercase hexadecimal, and read back as the byte. -/
private theorem hexBytes_spec (byte : UInt8) : ∃ high low, hexBytes byte = [high, low] ∧ isHexByte high = true ∧
    isHexByte low = true ∧ (hexValue high <<< 4 ||| hexValue low) = byte := by
  have every : ∀ value < 256, (hexBytes (UInt8.ofNat value)).length = 2 ∧
      (hexBytes (UInt8.ofNat value)).all isHexByte = true ∧
      hexPairs (hexBytes (UInt8.ofNat value)) = [UInt8.ofNat value] := by decide +kernel
  obtain ⟨length, hex, paired⟩ := every byte.toNat byte.toNat_lt
  rw [UInt8.ofNat_toNat] at length hex paired
  obtain ⟨high, low, digits⟩ := List.length_eq_two.mp length
  rw [digits] at hex paired
  simp only [List.all_cons, List.all_nil, Bool.and_true, Bool.and_eq_true] at hex
  simp only [hexPairs, List.cons.injEq, and_true] at paired
  exact ⟨high, low, digits, hex.1, hex.2, paired⟩

theorem utf8_hexEncode (bytes : Bytes) : utf8 (hexEncode bytes) = bytes.flatMap hexBytes := by
  simp only [utf8, hexEncode, String.toUTF8, String.ofList, List.utf8Encode, List.toList_data_toByteArray,
    List.flatMap_assoc]
  rfl

theorem hexDigits_of_bytes (bytes : Bytes) : (bytes.flatMap hexBytes).length = bytes.length * 2 ∧
    (bytes.flatMap hexBytes).all isHexByte = true ∧ hexPairs (bytes.flatMap hexBytes) = bytes := by
  induction bytes with
  | nil => exact ⟨rfl, rfl, rfl⟩
  | cons byte rest ih =>
    obtain ⟨high, low, digits, highHex, lowHex, value⟩ := hexBytes_spec byte
    obtain ⟨length, hex, paired⟩ := ih
    rw [List.flatMap_cons, digits]
    refine ⟨?_, ?_, ?_⟩
    · simp only [List.cons_append, List.nil_append, List.length_cons, length]
      omega
    · simp [highHex, lowHex, hex]
    · simp [hexPairs, value, paired]

/-- Written digits read back as the bytes. -/
theorem hexDecode_hexEncode (bytes : Bytes) : hexDecode (hexEncode bytes) bytes.length = .ok bytes := by
  obtain ⟨length, hex, paired⟩ := hexDigits_of_bytes bytes
  simp [hexDecode, utf8_hexEncode, length, hex, paired, reject, pure, Except.pure, bind, Except.bind]

/-- A signing key whose signatures verify under the session's public key. -/
structure TargetSigningKeyV2.SignsFor (signer : TargetSigningKeyV2) (p : Primitives) (session : SessionCoreV2) :
    Prop where
  length : ∀ message, (signer.sign message).length = 64
  verifies : ∀ message, p.ed25519Verify session.targetPublicKey.toList message (signer.sign message) = true

namespace AuthenticatedRoundV2

/-- The tokens that a decision commits for a round. -/
def committedBy (request : AuthenticatedRoundV2) (decision : ResultDecisionV2) : List UInt32 :=
  match request.core.frontierIn, decision.committedInputCount with
  | .opened frontierIn _, .ok count => AuthenticatedResultV2.expectedCommitted count frontierIn
      request.core.draftTokens decision.acceptedDrafts.toNat
  | _, _ => []

/-- The result of a decision at a completion time, before its head is known. -/
def decided (p : Primitives) (request : AuthenticatedRoundV2) (session : SessionCoreV2) (decision : ResultDecisionV2)
    (postVerifySamplerState : SamplerStateV2) (fragments : List FragmentDescriptorV2) (completedUnixMs : UInt64) :
    ResultCoreV2 :=
  unlinkedResult p request session decision (request.committedBy decision)
    (request.core.baseOutputHeight + UInt64.ofNat (request.committedBy decision).length) postVerifySamplerState
    fragments completedUnixMs

end AuthenticatedRoundV2

/-- A decision with its fragments satisfies what the session requires of an answer to the round. -/
structure SessionCoreV2.Satisfied (p : Primitives) (session : SessionCoreV2) (request : AuthenticatedRoundV2)
    (decision : ResultDecisionV2) (postVerifySamplerState : SamplerStateV2) (fragments : List FragmentDescriptorV2) :
    Prop where
  intent : decision.validateForIntent request.core.protocol request.core.intent request.core.baseSamplerState
    postVerifySamplerState = .ok ()
  accepted : decision.acceptedDrafts.toNat ≤ request.core.draftTokens.length
  vocabulary : ∀ accepted frontierOut, decision = .opened accepted frontierOut → frontierOut < session.vocabSize
  sampler : postVerifySamplerState.validateFor session.couplingPolicy = .ok ()
  descriptors : validateDescriptors fragments session.maxTotalFragmentBytes = .ok ()
  geometry : ∀ completedUnixMs, validateClosureGeometry
    (request.decided p session decision postVerifySamplerState fragments completedUnixMs) request.core session = .ok ()

/-- Under the live protocol a valid decision says how many inputs it commits. -/
theorem ResultDecisionV2.committedInputCount_of_valid {decision : ResultDecisionV2} {intent : RoundIntentV2}
    {base post : SamplerStateV2}
    (valid : decision.validateForIntent verifierRoundProtocolV3 intent base post = .ok ()) :
    ∃ count, decision.committedInputCount = .ok count := by
  cases decision with
  | opened accepted frontierOut => exact ⟨_, rfl⟩
  | closed commitFrontier accepted reason =>
    cases commitFrontier with
    | true => exact ⟨_, rfl⟩
    | false =>
      have notOld : verifierRoundProtocolV3 ≠ verifierRoundProtocolV2 := by decide
      cases intent with
      | verify => simp [validateForIntent, notOld, reject] at valid
      | close requested =>
        simp only [validateForIntent, notOld, reduceCtorEq, and_self, if_false, reject_eq_ok_iff,
          Bool.or_eq_false_iff, bne_eq_false_iff_eq] at valid
        exact ⟨0, by simp [committedInputCount, valid.1.1.2, pure, Except.pure]⟩

section Completing

variable {p : Primitives} {session : SessionCoreV2} {request : AuthenticatedRoundV2} {decision : ResultDecisionV2}
  {postVerifySamplerState : SamplerStateV2} {fragments : List FragmentDescriptorV2} {completedUnixMs : UInt64}
  {signer : TargetSigningKeyV2}

/-- The frontier of a decided result follows its decision. -/
theorem decided_frontierFollows (satisfied : session.Satisfied p request decision postVerifySamplerState fragments) :
    AuthenticatedResultV2.frontierFollows ((request.decided p session decision postVerifySamplerState fragments
      completedUnixMs).linked p) session = true := by
  cases made : decision with
  | opened accepted frontierOut =>
    have small := satisfied.vocabulary accepted frontierOut made
    simp [AuthenticatedRoundV2.decided, unlinkedResult, ResultCoreV2.linked, ResultDecisionV2.frontierAfter,
      AuthenticatedResultV2.frontierFollows, small]
  | closed commitFrontier accepted reason =>
    simp [AuthenticatedRoundV2.decided, unlinkedResult, ResultCoreV2.linked, ResultDecisionV2.frontierAfter,
      AuthenticatedResultV2.frontierFollows]

/-- A decided result differs from its request in its completion time only. -/
theorem decided_mismatches {outputOrdinal : UInt64} (ordinal : outputOrdinal = request.core.baseOutputHeight)
    (fits : request.core.baseOutputHeight.toNat + (request.committedBy decision).length < 2 ^ 64) :
    AuthenticatedResultV2.mismatches p ((request.decided p session decision postVerifySamplerState fragments
      completedUnixMs).linked p) request session outputOrdinal (request.committedBy decision) = false ↔
      request.core.createdUnixMs ≤ completedUnixMs ∧ completedUnixMs ≤ request.core.expiresUnixMs := by
  have height : (request.core.baseOutputHeight + UInt64.ofNat (request.committedBy decision).length).toNat =
      request.core.baseOutputHeight.toNat + (request.committedBy decision).length := by
    have short : (UInt64.ofNat (request.committedBy decision).length).toNat = (request.committedBy decision).length :=
      UInt64.toNat_ofNat_of_lt' (by simp only [UInt64.size]; omega)
    rw [UInt64.toNat_add, short, Nat.mod_eq_of_lt fits]
  simp only [AuthenticatedResultV2.mismatches, Bool.or_eq_false_iff, decide_eq_false_iff_not, UInt64.not_lt]
  simp only [AuthenticatedRoundV2.decided, unlinkedResult, ResultCoreV2.linked, ordinal, height, bne_self_eq_false,
    and_self, true_and]

/-- A decided result passes the checks against its request exactly at a completion time inside the lifetime. -/
theorem decided_verifyAgainst_iff {frontierIn : UInt32}
    (opened : request.core.frontierIn = .opened frontierIn request.core.baseOutputHeight)
    {count : ℕ} (counted : decision.committedInputCount = .ok count)
    (satisfied : session.Satisfied p request decision postVerifySamplerState fragments)
    (signs : signer.SignsFor p session)
    (fits : request.core.baseOutputHeight.toNat + (request.committedBy decision).length < 2 ^ 64) :
    (AuthenticatedResultV2.sign ((request.decided p session decision postVerifySamplerState fragments
      completedUnixMs).linked p) signer).verifyAgainst p request session = .ok () ↔
      request.core.createdUnixMs ≤ completedUnixMs ∧ completedUnixMs ≤ request.core.expiresUnixMs := by
  have committed : AuthenticatedResultV2.expectedCommitted count frontierIn request.core.draftTokens
      decision.acceptedDrafts.toNat = request.committedBy decision := by
    simp [AuthenticatedRoundV2.committedBy, opened, counted]
  have decoded : ∀ message, hexDecode (hexEncode (signer.sign message)) 64 = .ok (signer.sign message) := by
    intro message
    have read := hexDecode_hexEncode (signer.sign message)
    rwa [signs.length message] at read
  have matched : AuthenticatedResultV2.mismatches p ((request.decided p session decision postVerifySamplerState
      fragments completedUnixMs).linked p) request session request.core.baseOutputHeight (request.committedBy decision) =
      false ↔ request.core.createdUnixMs ≤ completedUnixMs ∧ completedUnixMs ≤ request.core.expiresUnixMs :=
    decided_mismatches rfl fits
  have follows : AuthenticatedResultV2.frontierFollows ((request.decided p session decision postVerifySamplerState
      fragments completedUnixMs).linked p) session = true := decided_frontierFollows satisfied
  have geometry := satisfied.geometry completedUnixMs
  generalize made : (request.decided p session decision postVerifySamplerState fragments completedUnixMs).linked p =
    core at matched follows
  have decisionOf : core.decision = decision := made ▸ rfl
  have samplerOf : core.postVerifySamplerState = postVerifySamplerState := made ▸ rfl
  have fragmentsOf : core.fragments = fragments := made ▸ rfl
  have transcriptOf : tokenDigest p (request.core.baseEvaluatedTokens ++ core.committedTokens) =
      core.newEvaluatedTokensSha256 := made ▸ rfl
  have setOf : fragmentSetDigest p fragments = core.fragmentsSha256 := made ▸ rfl
  have headOf : core.newHeadSha256 = transitionHead p core := made ▸ rfl
  have covered : validateClosureGeometry core request.core session = .ok () := made ▸ geometry
  have answered : AuthenticatedResultV2.verifyFrontier p core request session = .ok () ↔
      request.core.createdUnixMs ≤ completedUnixMs ∧ completedUnixMs ≤ request.core.expiresUnixMs := by
    rw [← matched]
    have short : request.core.baseOutputHeight.toNat + (request.committedBy decision).length < 18446744073709551616 :=
      fits
    simp [AuthenticatedResultV2.verifyFrontier, opened, bind_eq_ok_iff, decisionOf, counted, committed,
      satisfied.accepted, short]
  have digest : isDigest core.newEvaluatedTokensSha256 = true := transcriptOf ▸ p.sha256Hex_isDigest _
  rw [← answered, AuthenticatedResultV2.verifyAgainst, bind_eq_ok_iff]
  simp [AuthenticatedResultV2.sign, check_eq_ok_iff, decoded, signs.verifies, decisionOf, samplerOf, fragmentsOf,
    satisfied.intent, follows, satisfied.sampler, digest, transcriptOf, satisfied.descriptors, covered, setOf, headOf]

/-- An admitted round with a satisfying decision is completed exactly when the target's clock has reached the
creation time of the round and the output height stays inside its word. -/
theorem admitted_completes_iff {key : MacKey} {nowUnixMs : UInt64}
    (live : request.verifyLive p session key nowUnixMs = .ok ())
    (satisfied : session.Satisfied p request decision postVerifySamplerState fragments)
    (signs : signer.SignsFor p session) (inside : completedUnixMs ≤ request.core.expiresUnixMs) :
    (∃ result, buildResult p request session decision postVerifySamplerState fragments completedUnixMs signer =
        .ok result ∧ result.verifyAgainst p request session = .ok ()) ↔
      request.core.createdUnixMs ≤ completedUnixMs ∧
        request.core.baseOutputHeight.toNat + (request.committedBy decision).length < 2 ^ 64 := by
  have historical := AuthenticatedRoundV2.verifyHistorical_historical (AuthenticatedRoundV2.verifyLive_historical live)
  obtain ⟨frontierIn, opened, _⟩ := historical.frontier
  have protocol : request.core.protocol = verifierRoundProtocolV3 := by
    simp only [AuthenticatedRoundV2.verifyLive, check_eq_ok_iff, reject_eq_ok_iff, bne_eq_false_iff_eq] at live
    exact live.2.1
  obtain ⟨count, counted⟩ := ResultDecisionV2.committedInputCount_of_valid (protocol ▸ satisfied.intent)
  have committed : AuthenticatedResultV2.expectedCommitted count frontierIn request.core.draftTokens
      decision.acceptedDrafts.toNat = request.committedBy decision := by
    simp [AuthenticatedRoundV2.committedBy, opened, counted]
  have intime : ¬ request.core.expiresUnixMs < completedUnixMs := UInt64.not_lt.mpr inside
  have built : ∀ result, buildResult p request session decision postVerifySamplerState fragments completedUnixMs
      signer = .ok result ↔ request.core.baseOutputHeight.toNat + (request.committedBy decision).length < 2 ^ 64 ∧
        (AuthenticatedResultV2.sign ((request.decided p session decision postVerifySamplerState fragments
          completedUnixMs).linked p) signer).verifyAgainst p request session = .ok () ∧
        .sign ((request.decided p session decision postVerifySamplerState fragments completedUnixMs).linked p)
          signer = result := by
    intro result
    simp only [buildResult, satisfied.intent, opened, satisfied.sampler, counted, bind_eq_ok_iff, reject_eq_ok_iff,
      Bool.or_eq_false_iff, decide_eq_false_iff_not, not_lt.mpr satisfied.accepted, intime, not_false_eq_true,
      and_self, true_and, Nat.not_le, pure, Except.pure, Except.ok.injEq]
    constructor
    · rintro ⟨_, _, _, _, rfl, _, fits, _, verified, rfl⟩
      rw [committed] at fits verified ⊢
      exact ⟨fits, verified, rfl⟩
    · rintro ⟨fits, verified, rfl⟩
      rw [← committed] at fits
      exact ⟨(), (), (), _, rfl, (), fits, (), by rw [committed]; exact verified, by rw [committed]; rfl⟩
  constructor
  · rintro ⟨result, made, verified⟩
    obtain ⟨fits, _, rfl⟩ := (built result).mp made
    exact ⟨((decided_verifyAgainst_iff opened counted satisfied signs fits).mp verified).1, fits⟩
  · rintro ⟨created, fits⟩
    have verified := (decided_verifyAgainst_iff opened counted satisfied signs fits).mpr ⟨created, inside⟩
    exact ⟨_, (built _).mpr ⟨fits, verified, rfl⟩, verified⟩

end Completing

section Samples

open Sample

/-- What the small session comes to for its next token. The coverage of a result does not depend on its completion
time, which is zero here. -/
private theorem sample_evaluated :
    (ResultDecisionV2.opened 0 8).validateForIntent request.core.protocol request.core.intent request.core.baseSamplerState
        request.core.baseSamplerState = .ok () ∧
      (ResultDecisionV2.opened 0 8).acceptedDrafts.toNat ≤ request.core.draftTokens.length ∧ 8 < core.vocabSize ∧
      request.core.baseSamplerState.validateFor core.couplingPolicy = .ok () ∧
      validateDescriptors [descriptor request] core.maxTotalFragmentBytes = .ok () ∧
      validateClosureGeometry (request.decided primitives core (.opened 0 8) request.core.baseSamplerState
        [descriptor request] 0) request.core core = .ok () := by
  decide +kernel

/-- The next token of the small session satisfies its requirements. -/
theorem sample_satisfied : core.Satisfied primitives request (.opened 0 8) request.core.baseSamplerState
    [descriptor request] := by
  obtain ⟨intent, accepted, vocabulary, sampler, descriptors, geometry⟩ := sample_evaluated
  refine ⟨intent, accepted, ?_, sampler, descriptors, fun _ => geometry⟩
  rintro _ _ ⟨⟩
  exact vocabulary

theorem sample_signsFor : signer.SignsFor primitives core where
  length _ := by simp [signer, signature]
  verifies message := by
    have same : core.targetPublicKey.toList = publicKey.toList := rfl
    simp [signer, primitives, same]

/-- The round is live at both times, and the early decision is refused when its result is checked. -/
private theorem rounds_evaluated : request.verifyLive primitives core key 5 = .ok () ∧
    request.verifyLive primitives core key 1 = .ok () ∧
    10 ≤ request.core.expiresUnixMs ∧ 1 ≤ request.core.expiresUnixMs ∧
    buildResult primitives request core (.opened 0 8) request.core.baseSamplerState [descriptor request] 1
      signer = .error (invalid "result does not match its authenticated request") := by
  decide +kernel

/-- A decision at time ten is completed, since the round was created at time two. -/
theorem admitted_completes_sample :
    (∃ result, buildResult primitives request core (.opened 0 8) request.core.baseSamplerState [descriptor request] 10
        signer = .ok result ∧ result.verifyAgainst primitives request core = .ok ()) ↔
      request.core.createdUnixMs ≤ 10 ∧
        request.core.baseOutputHeight.toNat + (request.committedBy (.opened 0 8)).length < 2 ^ 64 :=
  admitted_completes_iff rounds_evaluated.1 sample_satisfied sample_signsFor rounds_evaluated.2.2.1

/-- At time one the round of time two is live, but no decision on it can be completed. -/
theorem skewed_round_incomplete :
    request.verifyLive primitives core key 1 = .ok () ∧
      core.Satisfied primitives request (.opened 0 8) request.core.baseSamplerState [descriptor request] ∧
      signer.SignsFor primitives core ∧ (1 : UInt64) ≤ request.core.expiresUnixMs ∧
      ¬ ∃ result, buildResult primitives request core (.opened 0 8) request.core.baseSamplerState [descriptor request] 1
        signer = .ok result := by
  obtain ⟨-, live, -, intime, refused⟩ := rounds_evaluated
  refine ⟨live, sample_satisfied, sample_signsFor, intime, ?_⟩
  rintro ⟨result, built⟩
  rw [refused] at built
  cases built

end Samples

end Muser.Verifier
