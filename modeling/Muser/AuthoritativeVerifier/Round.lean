import Muser.AuthoritativeVerifier.Session

/-! # Authenticated rounds

A round names its parent by height, head, transcript, frontier and sampler state and proposes draft
tokens, or asks to close the session at that parent. Its draft evidence is replayed from the base
sampler state. Two rounds with the same core that both verify are equal, because the tag is a
function of the core.
-/

namespace Muser.Verifier

def verifierRoundProtocolV2 : String := "muser-verifier-round-v2"
def verifierRoundProtocolV3 : String := "muser-verifier-round-v3"
def verifierRoundMacDomainV2 : Bytes := utf8 "muser-verifier-round-v2"
def verifierRoundMacDomainV3 : Bytes := utf8 "muser-verifier-round-v3"

instance : ToJson SparseWeightEntryV2 where
  toJson entry := .obj [("token", toJson entry.token), ("weight_f32_bits", toJson entry.weightF32Bits)]

instance : ToJson SparseWeightRowV2 where
  toJson row := .obj [("entries", toJson row.entries), ("vocab_size", toJson row.vocabSize)]

namespace SparseWeightRowV2

/-- The bits of a finite positive `f32`. -/
def positiveFinite (bits : UInt32) : Bool := 0 < bits && bits < 0x7f800000

/-- Entries in range, without repeated tokens, with finite positive weights. -/
def entriesValid (vocabSize : UInt32) : List UInt32 → List SparseWeightEntryV2 → Bool
  | _, [] => true
  | seen, entry :: rest =>
    entry.token < vocabSize && !seen.contains entry.token && positiveFinite entry.weightF32Bits &&
      entriesValid vocabSize (entry.token :: seen) rest

/-- A sum of finite positive `f32` weights is finite and positive, so the total is not rechecked. -/
def validate (row : SparseWeightRowV2) (vocabSize : UInt32) (maxSupport : ℕ) : Result Unit := do
  reject (row.vocabSize != vocabSize || row.entries.isEmpty || maxSupport < row.entries.length)
    (invalid "sparse weight row geometry differs")
  reject (!entriesValid vocabSize [] row.entries) (invalid "sparse weight row has an invalid entry")

def sample (p : Primitives) (row : SparseWeightRowV2) (rng : Mt19937Snapshot) (vocabSize : UInt32)
    (maxSupport : ℕ) : Result (UInt32 × Mt19937Snapshot) := do
  row.validate vocabSize maxSupport
  pure (p.drawRow row.entries rng)

end SparseWeightRowV2

inductive DraftEvidenceV2 where
  | none
  | sparseMaximal (qRows : List SparseWeightRowV2)
  | sharedGumbel (witnessSha256 : String)
deriving DecidableEq

instance : ToJson DraftEvidenceV2 where
  toJson
    | .none => .obj [("kind", .str "none")]
    | .sparseMaximal qRows => .obj [("kind", .str "sparse_maximal"), ("q_rows", toJson qRows)]
    | .sharedGumbel witnessSha256 =>
      .obj [("kind", .str "shared_gumbel"), ("witness_sha256", toJson witnessSha256)]

structure RoundCoreV2 where
  protocol : String
  intent : RoundIntentV2
  sessionId : String
  sessionGenesisSha256 : String
  authorityTerm : UInt64
  requestId : String
  createdUnixMs : UInt64
  expiresUnixMs : UInt64
  hmacKeyId : String
  hmacKeyEpoch : UInt64
  baseOutputHeight : UInt64
  baseHeadSha256 : String
  baseEvaluatedTokens : List UInt32
  baseTokensSha256 : String
  frontierIn : FrontierV2
  draftTokens : List UInt32
  draftEvidence : DraftEvidenceV2
  baseSamplerState : SamplerStateV2
  postDraftSamplerState : SamplerStateV2
deriving DecidableEq

namespace RoundCoreV2

/-- The intent member, omitted for the default `Verify`. -/
def intentMember : RoundIntentV2 → List (String × Json)
  | .verify => []
  | .close reason => [("intent", toJson (RoundIntentV2.close reason))]

def json (round : RoundCoreV2) : Json := .obj ([
  ("authority_term", toJson round.authorityTerm),
  ("base_evaluated_tokens", toJson round.baseEvaluatedTokens),
  ("base_head_sha256", toJson round.baseHeadSha256),
  ("base_output_height", toJson round.baseOutputHeight),
  ("base_sampler_state", toJson round.baseSamplerState),
  ("base_tokens_sha256", toJson round.baseTokensSha256),
  ("created_unix_ms", toJson round.createdUnixMs),
  ("draft_evidence", toJson round.draftEvidence),
  ("draft_tokens", toJson round.draftTokens),
  ("expires_unix_ms", toJson round.expiresUnixMs),
  ("frontier_in", toJson round.frontierIn),
  ("hmac_key_epoch", toJson round.hmacKeyEpoch),
  ("hmac_key_id", toJson round.hmacKeyId)] ++ intentMember round.intent ++ [
  ("post_draft_sampler_state", toJson round.postDraftSamplerState),
  ("protocol", toJson round.protocol),
  ("request_id", toJson round.requestId),
  ("session_genesis_sha256", toJson round.sessionGenesisSha256),
  ("session_id", toJson round.sessionId)])

instance : ToJson RoundCoreV2 := ⟨json⟩

def macDomain (round : RoundCoreV2) : Result Bytes :=
  if round.protocol = verifierRoundProtocolV2 then pure verifierRoundMacDomainV2
  else if round.protocol = verifierRoundProtocolV3 then pure verifierRoundMacDomainV3
  else .error (invalid "wrong round protocol")

/-- Round-v2 records have no authenticated intent and stand for `Verify`. -/
def compatibleProtocol (round : RoundCoreV2) : Bool :=
  match round.intent with
  | .verify => round.protocol == verifierRoundProtocolV2 || round.protocol == verifierRoundProtocolV3
  | .close _ => round.protocol == verifierRoundProtocolV3

def wrongAddress (round : RoundCoreV2) (session : SessionCoreV2) : Bool :=
  !round.compatibleProtocol || round.sessionId != session.sessionId ||
    round.sessionGenesisSha256 != session.genesisHeadSha256 || round.authorityTerm != session.authorityTerm ||
    round.hmacKeyId != session.hmacKeyId || round.hmacKeyEpoch != session.hmacKeyEpoch ||
    round.createdUnixMs < session.createdUnixMs || round.expiresUnixMs ≤ round.createdUnixMs ||
    session.expiresUnixMs < round.expiresUnixMs

def badCandidates (p : Primitives) (round : RoundCoreV2) (session : SessionCoreV2) : Bool :=
  tokenDigest p round.baseEvaluatedTokens != round.baseTokensSha256 ||
    session.maxContextTokens.toNat < round.baseEvaluatedTokens.length ||
    (round.baseEvaluatedTokens ++ round.draftTokens).any (session.vocabSize ≤ ·) ||
    session.maxDrafts.toNat < round.draftTokens.length

/-- Context positions a round needs beyond its base transcript. -/
def contextInputs (round : RoundCoreV2) : ℕ :=
  match round.intent with
  | .verify => 1 + round.draftTokens.length
  | .close _ => 0

/-- The transcript limit keeps `saturating_add` and `checked_add` away from their bounds. -/
def badTranscript (round : RoundCoreV2) (session : SessionCoreV2) (generated : ℕ) : Bool :=
  round.baseEvaluatedTokens.length != session.initialEvaluatedTokens.length + generated ||
    !session.initialEvaluatedTokens.isPrefixOf round.baseEvaluatedTokens ||
    session.maxContextTokens.toNat < round.baseEvaluatedTokens.length + round.contextInputs

def validateFrontier (round : RoundCoreV2) (session : SessionCoreV2) : Result Unit :=
  match round.frontierIn with
  | .closed _ => .error .terminal
  | .opened token outputOrdinal =>
    reject (session.vocabSize ≤ token || outputOrdinal != round.baseOutputHeight)
      (invalid "round carried frontier differs")

/-- Replays the drafts row by row from the base generator. -/
def replayDrafts (p : Primitives) (vocabSize : UInt32) (maxSupport : ℕ) :
    List SparseWeightRowV2 → List UInt32 → Mt19937Snapshot → Result Mt19937Snapshot
  | row :: rows, token :: tokens, rng => do
    let (drawn, next) ← row.sample p rng vocabSize maxSupport
    reject (drawn != token) (invalid "draft token was not sampled from its q row")
    replayDrafts p vocabSize maxSupport rows tokens next
  | _, _, rng => pure rng

def validateSparseDrafts (p : Primitives) (round : RoundCoreV2) (session : SessionCoreV2) (maxSupport : UInt32)
    (qRows : List SparseWeightRowV2) : Result Unit := do
  reject (qRows.length != round.draftTokens.length) (invalid "sparse q row count differs from draft count")
  let rng ← round.baseSamplerState.toMt
  let drawn ← replayDrafts p session.vocabSize maxSupport.toNat qRows round.draftTokens rng
  let sampler ← SamplerStateV2.fromMt drawn
  reject (sampler != round.postDraftSamplerState) (invalid "post-draft MT snapshot does not replay")

def validateEvidence (p : Primitives) (round : RoundCoreV2) (session : SessionCoreV2) : Result Unit :=
  match round.intent with
  | .close reason =>
    reject (reason == .eos || !round.draftTokens.isEmpty || round.draftEvidence != .none ||
      round.baseSamplerState != round.postDraftSamplerState) (invalid "close intent or sampler boundary differs")
  | .verify =>
    match session.couplingPolicy, round.draftEvidence with
    | .greedy, .none =>
      reject (round.baseSamplerState != round.postDraftSamplerState)
        (invalid "greedy round changed stateless sampler state")
    | .sharedGumbel, .sharedGumbel witnessSha256 => do
      validateDigest "shared-Gumbel witness" witnessSha256
      reject (round.baseSamplerState != round.postDraftSamplerState)
        (invalid "shared-Gumbel round changed stateless sampler state")
    | .sparseMaximal maxSupport, .sparseMaximal qRows =>
      round.validateSparseDrafts p session maxSupport qRows
    | _, _ => .error (invalid "draft evidence does not match fixed session policy")

def validateHistorical (p : Primitives) (round : RoundCoreV2) (session : SessionCoreV2) : Result Unit := do
  reject (round.wrongAddress session) (invalid "round addresses the wrong session or lifetime")
  validateIdentifier "request id" round.requestId
  validateDigest "base head" round.baseHeadSha256
  validateDigest "base transcript" round.baseTokensSha256
  reject (round.badCandidates p session) (invalid "round transcript or candidate geometry differs")
  reject (round.baseOutputHeight < session.initialOutputHeight) (invalid "round output precedes genesis")
  reject (round.badTranscript session (round.baseOutputHeight - session.initialOutputHeight).toNat)
    (invalid "round transcript length or context limit differs")
  round.validateFrontier session
  round.baseSamplerState.validateFor session.couplingPolicy
  round.postDraftSamplerState.validateFor session.couplingPolicy
  round.validateEvidence p session

/-- What an accepted round core guarantees, over a given session. -/
structure Historical (p : Primitives) (round : RoundCoreV2) (session : SessionCoreV2) : Prop where
  protocol : round.compatibleProtocol = true
  sessionId : round.sessionId = session.sessionId
  genesis : round.sessionGenesisSha256 = session.genesisHeadSha256
  hmacKeyId : round.hmacKeyId = session.hmacKeyId
  requestId : isIdentifier round.requestId = true
  baseHead : isDigest round.baseHeadSha256 = true
  baseTokensDigest : tokenDigest p round.baseEvaluatedTokens = round.baseTokensSha256
  inVocabulary : ∀ token ∈ round.baseEvaluatedTokens ++ round.draftTokens, token < session.vocabSize
  draftCount : round.draftTokens.length ≤ session.maxDrafts.toNat
  height : session.initialOutputHeight ≤ round.baseOutputHeight
  length : round.baseEvaluatedTokens.length =
    session.initialEvaluatedTokens.length + (round.baseOutputHeight.toNat - session.initialOutputHeight.toNat)
  startsWith : session.initialEvaluatedTokens <+: round.baseEvaluatedTokens
  context : round.baseEvaluatedTokens.length + round.contextInputs ≤ session.maxContextTokens.toNat
  frontier : ∃ token, round.frontierIn = .opened token round.baseOutputHeight ∧ token < session.vocabSize
  baseSampler : round.baseSamplerState.validateFor session.couplingPolicy = .ok ()
  postDraftSampler : round.postDraftSamplerState.validateFor session.couplingPolicy = .ok ()
  evidence : round.validateEvidence p session = .ok ()

variable {session : SessionCoreV2} {round : RoundCoreV2}

theorem validateFrontier_ok_iff :
    round.validateFrontier session = .ok () ↔
      ∃ token, round.frontierIn = .opened token round.baseOutputHeight ∧ token < session.vocabSize := by
  unfold validateFrontier
  cases round.frontierIn with
  | closed reason => simp
  | opened token outputOrdinal =>
    simp only [reject_eq_ok_iff, Bool.or_eq_false_iff, decide_eq_false_iff_not, UInt32.not_le, bne_eq_false_iff_eq,
      FrontierV2.opened.injEq]
    constructor
    · rintro ⟨small, rfl⟩
      exact ⟨token, ⟨rfl, rfl⟩, small⟩
    · rintro ⟨_, ⟨rfl, rfl⟩, small⟩
      exact ⟨small, rfl⟩

/-- An accepted round core is historical for its session. -/
theorem validateHistorical_historical {p : Primitives}
    (accepted : round.validateHistorical p session = .ok ()) : round.Historical p session := by
  simp only [validateHistorical, check_eq_ok_iff, reject_eq_ok_iff, validateIdentifier_ok_iff,
    validateDigest_ok_iff, validateFrontier_ok_iff] at accepted
  obtain ⟨address, requestId, baseHead, _, candidates, height, transcript, frontier, baseSampler, postSampler,
    evidence⟩ := accepted
  simp only [wrongAddress, Bool.or_eq_false_iff, Bool.not_eq_false', bne_eq_false_iff_eq] at address
  simp only [badCandidates, Bool.or_eq_false_iff, bne_eq_false_iff_eq, decide_eq_false_iff_not, Nat.not_lt,
    List.any_eq_false, decide_eq_true_eq, UInt32.not_le] at candidates
  simp only [badTranscript, Bool.or_eq_false_iff, bne_eq_false_iff_eq, Bool.not_eq_false', decide_eq_false_iff_not,
    Nat.not_lt, List.isPrefixOf_iff_prefix] at transcript
  have ordered : session.initialOutputHeight ≤ round.baseOutputHeight := by simpa using height
  have generated : (round.baseOutputHeight - session.initialOutputHeight).toNat =
      round.baseOutputHeight.toNat - session.initialOutputHeight.toNat := UInt64.toNat_sub_of_le _ _ ordered
  exact {
    protocol := address.1.1.1.1.1.1.1.1
    sessionId := address.1.1.1.1.1.1.1.2
    genesis := address.1.1.1.1.1.1.2
    hmacKeyId := address.1.1.1.1.2
    requestId, baseHead
    baseTokensDigest := candidates.1.1.1
    inVocabulary := candidates.1.2
    draftCount := candidates.2
    height := ordered
    length := generated ▸ transcript.1.1
    startsWith := transcript.1.2
    context := transcript.2
    frontier, baseSampler
    postDraftSampler := postSampler
    evidence }

end RoundCoreV2

structure AuthenticatedRoundV2 where
  core : RoundCoreV2
  hmacSha256 : String
deriving DecidableEq

namespace AuthenticatedRoundV2

def json (round : AuthenticatedRoundV2) : Json :=
    .obj [("core", toJson round.core), ("hmac_sha256", toJson round.hmacSha256)]

instance : ToJson AuthenticatedRoundV2 := ⟨json⟩

def sign (p : Primitives) (core : RoundCoreV2) (session : SessionCoreV2) (key : MacKey) :
    Result AuthenticatedRoundV2 := do
  core.validateHistorical p session
  let domain ← core.macDomain
  let hmacSha256 ← key.tagDomainHex p domain (canonical core)
  pure ⟨core, hmacSha256⟩

def verifyHistorical (p : Primitives) (round : AuthenticatedRoundV2) (session : SessionCoreV2) (key : MacKey) :
    Result Unit := do
  round.core.validateHistorical p session
  validateDigest "round HMAC" round.hmacSha256
  let domain ← round.core.macDomain
  key.verifyDomainHex p domain (canonical round.core) round.hmacSha256

def verifyLive (p : Primitives) (round : AuthenticatedRoundV2) (session : SessionCoreV2) (key : MacKey)
    (nowUnixMs : UInt64) : Result Unit := do
  round.verifyHistorical p session key
  reject (round.core.protocol != verifierRoundProtocolV3)
    (invalid "round-v2 is historical-only; new live work requires round-v3")
  reject (outsideLifetime round.core.createdUnixMs round.core.expiresUnixMs nowUnixMs)
    (invalid "round is expired or created in the future")

def intentSha256 (p : Primitives) (round : AuthenticatedRoundV2) : String := p.sha256Hex (canonical round.core)

variable {round : AuthenticatedRoundV2} {session : SessionCoreV2} {p : Primitives} {key : MacKey}

theorem verifyHistorical_ok_iff : round.verifyHistorical p session key = .ok () ↔
      round.core.validateHistorical p session = .ok () ∧ isDigest round.hmacSha256 = true ∧
        ∃ domain, round.core.macDomain = .ok domain ∧
          key.verifyDomainHex p domain (canonical round.core) round.hmacSha256 = .ok () := by
  rw [verifyHistorical, check_eq_ok_iff, check_eq_ok_iff, validateDigest_ok_iff, bind_eq_ok_iff]

theorem verifyLive_historical {nowUnixMs : UInt64} (live : round.verifyLive p session key nowUnixMs = .ok ()) :
    round.verifyHistorical p session key = .ok () := by
  simp only [verifyLive, check_eq_ok_iff] at live
  exact live.1

theorem verifyHistorical_historical (verified : round.verifyHistorical p session key = .ok ()) :
    round.core.Historical p session :=
  RoundCoreV2.validateHistorical_historical (verifyHistorical_ok_iff.mp verified).1

end AuthenticatedRoundV2

end Muser.Verifier
