import Muser.AuthoritativeVerifier.Primitives

/-! # Verifier sessions

The fixed description of one verifier session and its checks: identity, coupling policy, sampler
state, carried frontier and fragment requirements. A session is authenticated by a domain-separated
HMAC over its canonical text, and its genesis head is the digest of the session with that field
zeroed.
-/

namespace Muser.Verifier

def verifierSessionProtocolV2 : String := "muser-verifier-session-v2"
def verifierSessionMacDomainV2 : Bytes := utf8 "muser-verifier-session-v2"
def statelessSamplerV2 : String := "muser-stateless-sampler-v2"
def maxDraftsV2 : ℕ := 64
def maxSparseSupportV2 : ℕ := 4096
def maxContextTokensV2 : ℕ := 131072
def maxFragmentBytesV2 : ℕ := 512 * 1024 * 1024
def maxTotalFragmentBytesV2 : ℕ := 512 * 1024 * 1024
def maxClockSkewMsV2 : ℕ := 30000

/-- The digest written where a head is not known yet. -/
def zeroDigest : String := String.ofList (List.replicate 64 '0')

/-- `now.saturating_add(MAX_CLOCK_SKEW_MS_V2)`. -/
def saturatingAdd (left right : UInt64) : ℕ := min (left.toNat + right.toNat) (2 ^ 64 - 1)

/-- A record is live when it has not expired and was not created after the skewed clock. -/
def outsideLifetime (created expires now : UInt64) : Bool :=
  expires < now || saturatingAdd now (UInt64.ofNat maxClockSkewMsV2) < created.toNat

structure CompositeIdentityV2 where
  semanticProductSha256 : String
  prefixCheckpointSha256 : String
  targetCheckpointSha256 : String
  targetEngineSha256 : String
  targetSamplerSha256 : String
  draftCheckpointSha256 : String
  draftEngineSha256 : String
  tokenizerSha256 : String
  vocabularySha256 : String
  targetGenesisRootSha256 : String
  draftGenesisRootSha256 : String
  portableKvAbi : String
deriving DecidableEq

namespace CompositeIdentityV2

instance : ToJson CompositeIdentityV2 where
  toJson identity := .obj [
    ("draft_checkpoint_sha256", toJson identity.draftCheckpointSha256),
    ("draft_engine_sha256", toJson identity.draftEngineSha256),
    ("draft_genesis_root_sha256", toJson identity.draftGenesisRootSha256),
    ("portable_kv_abi", toJson identity.portableKvAbi),
    ("prefix_checkpoint_sha256", toJson identity.prefixCheckpointSha256),
    ("semantic_product_sha256", toJson identity.semanticProductSha256),
    ("target_checkpoint_sha256", toJson identity.targetCheckpointSha256),
    ("target_engine_sha256", toJson identity.targetEngineSha256),
    ("target_genesis_root_sha256", toJson identity.targetGenesisRootSha256),
    ("target_sampler_sha256", toJson identity.targetSamplerSha256),
    ("tokenizer_sha256", toJson identity.tokenizerSha256),
    ("vocabulary_sha256", toJson identity.vocabularySha256)]

/-- The digests of an identity with the names their errors carry. -/
def digests (identity : CompositeIdentityV2) : List (String × String) :=
  [("semantic product", identity.semanticProductSha256),
    ("prefix checkpoint", identity.prefixCheckpointSha256),
    ("target checkpoint", identity.targetCheckpointSha256),
    ("target engine", identity.targetEngineSha256),
    ("target sampler", identity.targetSamplerSha256),
    ("draft checkpoint", identity.draftCheckpointSha256),
    ("draft engine", identity.draftEngineSha256),
    ("tokenizer", identity.tokenizerSha256),
    ("vocabulary", identity.vocabularySha256),
    ("target genesis", identity.targetGenesisRootSha256),
    ("draft genesis", identity.draftGenesisRootSha256)]

def validate (identity : CompositeIdentityV2) : Result Unit := do
  forM identity.digests fun (name, digest) => validateDigest name digest
  validateIdentifier "portable KV ABI" identity.portableKvAbi

end CompositeIdentityV2

inductive CouplingPolicyV2 where
  | greedy
  | sparseMaximal (maxSupport : UInt32)
  | sharedGumbel
deriving DecidableEq

instance : ToJson CouplingPolicyV2 where
  toJson
    | .greedy => .obj [("kind", .str "greedy")]
    | .sparseMaximal maxSupport => .obj [("kind", .str "sparse_maximal"), ("max_support", toJson maxSupport)]
    | .sharedGumbel => .obj [("kind", .str "shared_gumbel")]

inductive SamplerStateV2 where
  | stateless (implementation : String)
  | mt19937 (state : List UInt32) (index : UInt32)
deriving DecidableEq

namespace SamplerStateV2

instance : ToJson SamplerStateV2 where
  toJson
    | .stateless implementation => .obj [("implementation", toJson implementation), ("kind", .str "stateless")]
    | .mt19937 state index =>
      .obj [("index", toJson index), ("kind", .str "mt19937"), ("state", toJson state)]

/-- Geometry of a sampler state: the one stateless implementation or a full MT19937 block. -/
def wellFormed : SamplerStateV2 → Bool
  | .stateless implementation => implementation == statelessSamplerV2
  | .mt19937 state index => state.length == 624 && index ≤ 624

def validate (sampler : SamplerStateV2) : Result Unit :=
  reject (!sampler.wellFormed) (invalid "sampler state geometry or implementation differs")

/-- Sparse coupling draws from MT19937; the other policies keep no generator. -/
def matchesPolicy : CouplingPolicyV2 → SamplerStateV2 → Bool
  | .sparseMaximal _, .mt19937 _ _ => true
  | .greedy, .stateless _ => true
  | .sharedGumbel, .stateless _ => true
  | _, _ => false

def validateFor (sampler : SamplerStateV2) (policy : CouplingPolicyV2) : Result Unit := do
  sampler.validate
  reject (!matchesPolicy policy sampler) (invalid "sampler state does not match coupling policy")

def fromMt (snapshot : Mt19937Snapshot) : Result SamplerStateV2 := do
  reject (2 ^ 32 ≤ snapshot.index) (invalid "MT index overflow")
  let sampler := .mt19937 snapshot.state (UInt32.ofNat snapshot.index)
  sampler.validate
  pure sampler

/-- The generator of an MT19937 state, checked as `Mt19937::from_snapshot` does. -/
def toMt : SamplerStateV2 → Result Mt19937Snapshot
  | .stateless _ => .error (invalid "sampler state is not MT19937")
  | .mt19937 state index => do
    reject (state.length != 624 || 624 < index) (invalid "invalid MT19937 snapshot")
    pure ⟨state, index.toNat⟩

end SamplerStateV2

inductive FinishReasonV2 where
  | eos
  | maxTokens
  | cancelled
deriving DecidableEq

instance : ToJson FinishReasonV2 where
  toJson
    | .eos => .str "eos"
    | .maxTokens => .str "max_tokens"
    | .cancelled => .str "cancelled"

inductive RoundIntentV2 where
  | verify
  | close (reason : FinishReasonV2)
deriving DecidableEq

instance : ToJson RoundIntentV2 where
  toJson
    | .verify => .obj [("kind", .str "verify")]
    | .close reason => .obj [("kind", .str "close"), ("reason", toJson reason)]

inductive FrontierV2 where
  | opened (token : UInt32) (outputOrdinal : UInt64)
  | closed (reason : FinishReasonV2)
deriving DecidableEq

instance : ToJson FrontierV2 where
  toJson
    | .opened token outputOrdinal =>
      .obj [("kind", .str "open"), ("output_ordinal", toJson outputOrdinal), ("token", toJson token)]
    | .closed reason => .obj [("kind", .str "closed"), ("reason", toJson reason)]

inductive FragmentKindV2 where
  | targetHidden
  | targetKvDelta
  | targetProbabilityEvidence
  | samplerWitness
  | snapshot
deriving DecidableEq

instance : ToJson FragmentKindV2 where
  toJson
    | .targetHidden => .str "target_hidden"
    | .targetKvDelta => .str "target_kv_delta"
    | .targetProbabilityEvidence => .str "target_probability_evidence"
    | .samplerWitness => .str "sampler_witness"
    | .snapshot => .str "snapshot"

inductive FragmentCoverageV2 where
  | committedInputs
  | freshTargetRows
  | roundSingleton
deriving DecidableEq

instance : ToJson FragmentCoverageV2 where
  toJson
    | .committedInputs => .str "committed_inputs"
    | .freshTargetRows => .str "fresh_target_rows"
    | .roundSingleton => .str "round_singleton"

structure FragmentRequirementV2 where
  componentId : String
  kind : FragmentKindV2
  coverage : FragmentCoverageV2
  payloadAbi : String
  bytesPerLogicalRow : UInt64
  required : Bool
deriving DecidableEq

instance : ToJson FragmentRequirementV2 where
  toJson requirement := .obj [
    ("bytes_per_logical_row", toJson requirement.bytesPerLogicalRow),
    ("component_id", toJson requirement.componentId),
    ("coverage", toJson requirement.coverage),
    ("kind", toJson requirement.kind),
    ("payload_abi", toJson requirement.payloadAbi),
    ("required", toJson requirement.required)]

/-- One requirement, given the components declared before it. -/
def validateRequirement (seen : List (String × FragmentKindV2)) (requirement : FragmentRequirementV2) :
    Result Unit := do
  validateIdentifier "fragment component" requirement.componentId
  validateIdentifier "fragment payload ABI" requirement.payloadAbi
  reject (seen.contains (requirement.componentId, requirement.kind) || requirement.bytesPerLogicalRow == 0 ||
    maxFragmentBytesV2 < requirement.bytesPerLogicalRow.toNat) (invalid "fragment requirement is duplicate or invalid")

/-- The loop over requirements, with the component set it accumulates. -/
def validateRequirementsFrom (seen : List (String × FragmentKindV2)) : List FragmentRequirementV2 → Result Unit
  | [] => pure ()
  | requirement :: rest => do
    validateRequirement seen requirement
    validateRequirementsFrom ((requirement.componentId, requirement.kind) :: seen) rest

def validateRequirements (requirements : List FragmentRequirementV2) : Result Unit := do
  reject (requirements.isEmpty || 64 < requirements.length) (invalid "fragment requirement count differs")
  validateRequirementsFrom [] requirements

structure SessionCoreV2 where
  protocol : String
  sessionId : String
  clientIncarnation : String
  logWriterAuthorityId : String
  authorityLeaseId : String
  authorityTerm : UInt64
  targetExecutorId : String
  targetPublicKey : Vector UInt8 32
  createdUnixMs : UInt64
  expiresUnixMs : UInt64
  hmacKeyId : String
  hmacKeyEpoch : UInt64
  identity : CompositeIdentityV2
  couplingPolicy : CouplingPolicyV2
  samplerConfigSha256 : String
  vocabSize : UInt32
  maxContextTokens : UInt32
  maxDrafts : UInt32
  maxTotalFragmentBytes : UInt64
  initialEvaluatedTokens : List UInt32
  initialOutputHeight : UInt64
  initialFrontier : FrontierV2
  initialSamplerState : SamplerStateV2
  fragmentRequirements : List FragmentRequirementV2
  genesisHeadSha256 : String
deriving DecidableEq

namespace SessionCoreV2

def json (session : SessionCoreV2) : Json := .obj [
  ("authority_lease_id", toJson session.authorityLeaseId),
  ("authority_term", toJson session.authorityTerm),
  ("client_incarnation", toJson session.clientIncarnation),
  ("coupling_policy", toJson session.couplingPolicy),
  ("created_unix_ms", toJson session.createdUnixMs),
  ("expires_unix_ms", toJson session.expiresUnixMs),
  ("fragment_requirements", toJson session.fragmentRequirements),
  ("genesis_head_sha256", toJson session.genesisHeadSha256),
  ("hmac_key_epoch", toJson session.hmacKeyEpoch),
  ("hmac_key_id", toJson session.hmacKeyId),
  ("identity", toJson session.identity),
  ("initial_evaluated_tokens", toJson session.initialEvaluatedTokens),
  ("initial_frontier", toJson session.initialFrontier),
  ("initial_output_height", toJson session.initialOutputHeight),
  ("initial_sampler_state", toJson session.initialSamplerState),
  ("log_writer_authority_id", toJson session.logWriterAuthorityId),
  ("max_context_tokens", toJson session.maxContextTokens),
  ("max_drafts", toJson session.maxDrafts),
  ("max_total_fragment_bytes", toJson session.maxTotalFragmentBytes),
  ("protocol", toJson session.protocol),
  ("sampler_config_sha256", toJson session.samplerConfigSha256),
  ("session_id", toJson session.sessionId),
  ("target_executor_id", toJson session.targetExecutorId),
  ("target_public_key", toJson session.targetPublicKey.toList),
  ("vocab_size", toJson session.vocabSize)]

instance : ToJson SessionCoreV2 := ⟨json⟩

/-- The identifiers of a session with the names their errors carry. -/
def identifiers (session : SessionCoreV2) : List (String × String) :=
  [("session id", session.sessionId),
    ("client incarnation", session.clientIncarnation),
    ("log writer", session.logWriterAuthorityId),
    ("authority lease", session.authorityLeaseId),
    ("target executor", session.targetExecutorId),
    ("HMAC key id", session.hmacKeyId)]

/-- The lifetime and geometry conditions that share one error. -/
def badGeometry (session : SessionCoreV2) (expectedKeyId : String) (minimumEpoch : UInt64) : Bool :=
  session.hmacKeyId != expectedKeyId || session.hmacKeyEpoch < minimumEpoch || session.authorityTerm == 0 ||
    session.expiresUnixMs ≤ session.createdUnixMs || session.vocabSize == 0 || session.maxContextTokens == 0 ||
    maxContextTokensV2 < session.maxContextTokens.toNat || session.initialEvaluatedTokens.isEmpty ||
    session.maxContextTokens.toNat < session.initialEvaluatedTokens.length || session.maxDrafts == 0 ||
    maxDraftsV2 < session.maxDrafts.toNat || session.maxTotalFragmentBytes == 0 ||
    maxTotalFragmentBytesV2 < session.maxTotalFragmentBytes.toNat ||
    session.targetPublicKey == Vector.replicate 32 0 ||
    session.initialEvaluatedTokens.any (session.vocabSize ≤ ·)

/-- The support bound of a policy; only sparse coupling carries one. -/
def policyBounded : CouplingPolicyV2 → Bool
  | .sparseMaximal maxSupport => 0 < maxSupport && maxSupport.toNat ≤ maxSparseSupportV2
  | .greedy => true
  | .sharedGumbel => true

/-- The initial frontier is open at the initial height, below the vocabulary size. -/
def initialFrontierOpen (session : SessionCoreV2) : Bool :=
  match session.initialFrontier with
  | .opened token outputOrdinal => token < session.vocabSize && outputOrdinal == session.initialOutputHeight
  | .closed _ => false

def validateWithoutHead (session : SessionCoreV2) (expectedKeyId : String) (minimumEpoch : UInt64) :
    Result Unit := do
  reject (session.protocol != verifierSessionProtocolV2) (invalid "wrong session protocol")
  forM session.identifiers fun (name, value) => validateIdentifier name value
  reject (session.badGeometry expectedKeyId minimumEpoch) (invalid "invalid session lifetime or geometry")
  reject (!(policyBounded session.couplingPolicy && session.initialFrontierOpen))
    (invalid "invalid initial policy or frontier")
  session.initialSamplerState.validateFor session.couplingPolicy
  validateDigest "sampler config" session.samplerConfigSha256
  session.identity.validate
  validateRequirements session.fragmentRequirements

/-- The session as it is hashed for its own genesis head. -/
def normalized (session : SessionCoreV2) : SessionCoreV2 := { session with genesisHeadSha256 := zeroDigest }

def genesisDigest (p : Primitives) (session : SessionCoreV2) : String :=
  p.sha256Hex (canonical session.normalized)

def validate (p : Primitives) (session : SessionCoreV2) (expectedKeyId : String) (minimumEpoch : UInt64) :
    Result Unit := do
  session.validateWithoutHead expectedKeyId minimumEpoch
  validateDigest "genesis head" session.genesisHeadSha256
  reject (session.genesisHeadSha256 != session.genesisDigest p)
    (invalid "session genesis head is not derived from genesis state")

/-- What an accepted session guarantees. -/
structure Valid (p : Primitives) (session : SessionCoreV2) : Prop where
  protocol : session.protocol = verifierSessionProtocolV2
  identifiers : ∀ entry ∈ session.identifiers, isIdentifier entry.2 = true
  contextLimit : session.maxContextTokens.toNat ≤ maxContextTokensV2
  context : session.initialEvaluatedTokens.length ≤ session.maxContextTokens.toNat
  draftLimit : session.maxDrafts.toNat ≤ maxDraftsV2
  inVocabulary : ∀ token ∈ session.initialEvaluatedTokens, token < session.vocabSize
  policy : policyBounded session.couplingPolicy = true
  frontier : ∃ token, session.initialFrontier = .opened token session.initialOutputHeight ∧ token < session.vocabSize
  sampler : session.initialSamplerState.validateFor session.couplingPolicy = .ok ()
  samplerConfig : isDigest session.samplerConfigSha256 = true
  identity : session.identity.validate = .ok ()
  requirements : validateRequirements session.fragmentRequirements = .ok ()
  genesisDigest : session.genesisHeadSha256 = session.genesisDigest p

theorem initialFrontierOpen_iff {session : SessionCoreV2} : session.initialFrontierOpen = true ↔
    ∃ token, session.initialFrontier = .opened token session.initialOutputHeight ∧ token < session.vocabSize := by
  unfold initialFrontierOpen
  cases session.initialFrontier with
  | closed reason => simp
  | opened token outputOrdinal =>
    simp only [Bool.and_eq_true, decide_eq_true_eq, beq_iff_eq, FrontierV2.opened.injEq]
    constructor
    · rintro ⟨small, rfl⟩
      exact ⟨token, ⟨rfl, rfl⟩, small⟩
    · rintro ⟨_, ⟨rfl, rfl⟩, small⟩
      exact ⟨small, rfl⟩

theorem validate_valid {p : Primitives} {session : SessionCoreV2} {expectedKeyId : String} {minimumEpoch : UInt64}
    (accepted : session.validate p expectedKeyId minimumEpoch = .ok ()) : session.Valid p := by
  simp only [validate, validateWithoutHead, check_eq_ok_iff, reject_eq_ok_iff, bne_eq_false_iff_eq,
    validateDigest_ok_iff, forM_eq_ok_iff, validateIdentifier_ok_iff, Bool.not_eq_false', Bool.and_eq_true,
    initialFrontierOpen_iff] at accepted
  obtain ⟨⟨protocol, identifiers, geometry, ⟨policy, frontier⟩, sampler, samplerConfig, identity, requirements⟩, _,
    genesisDigest⟩ := accepted
  simp only [badGeometry, Bool.or_eq_false_iff, decide_eq_false_iff_not, Nat.not_lt, List.any_eq_false,
    decide_eq_true_eq, UInt32.not_le] at geometry
  exact {
    protocol, identifiers, policy, frontier, sampler, samplerConfig, identity, requirements, genesisDigest
    contextLimit := geometry.1.1.1.1.1.1.1.1.2
    context := geometry.1.1.1.1.1.1.2
    draftLimit := geometry.1.1.1.1.2
    inVocabulary := geometry.2 }

end SessionCoreV2

structure AuthenticatedSessionV2 where
  core : SessionCoreV2
  hmacSha256 : String
deriving DecidableEq

namespace AuthenticatedSessionV2

def json (session : AuthenticatedSessionV2) : Json :=
    .obj [("core", toJson session.core), ("hmac_sha256", toJson session.hmacSha256)]

instance : ToJson AuthenticatedSessionV2 := ⟨json⟩

def sign (p : Primitives) (core : SessionCoreV2) (key : MacKey) : Result AuthenticatedSessionV2 := do
  core.normalized.validateWithoutHead core.hmacKeyId core.hmacKeyEpoch
  let signed := { core with genesisHeadSha256 := core.normalized.genesisDigest p }
  let hmacSha256 ← key.tagDomainHex p verifierSessionMacDomainV2 (canonical signed)
  pure ⟨signed, hmacSha256⟩

def verifyHistorical (p : Primitives) (session : AuthenticatedSessionV2) (key : MacKey) (expectedKeyId : String)
    (minimumEpoch : UInt64) : Result Unit := do
  session.core.validate p expectedKeyId minimumEpoch
  validateDigest "session HMAC" session.hmacSha256
  key.verifyDomainHex p verifierSessionMacDomainV2 (canonical session.core) session.hmacSha256

def verifyLive (p : Primitives) (session : AuthenticatedSessionV2) (key : MacKey) (nowUnixMs : UInt64)
    (expectedKeyId : String) (minimumEpoch : UInt64) : Result Unit := do
  session.verifyHistorical p key expectedKeyId minimumEpoch
  reject (outsideLifetime session.core.createdUnixMs session.core.expiresUnixMs nowUnixMs)
    (invalid "session is expired or created in the future")

def recordDigest (p : Primitives) (session : AuthenticatedSessionV2) : String := p.sha256Hex (canonical session)

theorem verifyHistorical_valid {p : Primitives} {session : AuthenticatedSessionV2} {key : MacKey}
    {expectedKeyId : String} {minimumEpoch : UInt64}
    (verified : session.verifyHistorical p key expectedKeyId minimumEpoch = .ok ()) : session.core.Valid p := by
  simp only [verifyHistorical, check_eq_ok_iff] at verified
  exact SessionCoreV2.validate_valid verified.1

end AuthenticatedSessionV2

end Muser.Verifier
