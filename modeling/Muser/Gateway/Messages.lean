import Muser.AuthoritativeVerifier.Digests

/-! # Messages between a source and its gateway

Their fields and their canonical text. A tagged message writes its tag among its fields, in key order.
-/

namespace Muser.Gateway

open Verifier

def verifierGatewayProtocolV1 : String := "muser-verifier-gateway-v2"
def verifierGatewaySourceProtocolV1 : String := "muser-verifier-gateway-source-v2"
def verifierSourceInstallReceiptProtocolV1 : String := "muser-verifier-source-install-v2"
def verifierMirrorPredictionProtocolV1 : String := "muser-mirror-prediction-v1"

/-- A commitment to a provisional draft state and the frontier it predicts. -/
structure MirrorPredictionCommitmentV1 where
  protocol : String
  requestId : String
  requestIntentSha256 : String
  baseHeadSha256 : String
  predictedFrontierToken : UInt32
  provisionalParentCacheRevision : UInt64
  provisionalCacheRevision : UInt64
  provisionalStateSha256 : String
deriving DecidableEq

instance : ToJson MirrorPredictionCommitmentV1 where
  toJson commitment := .obj [
    ("base_head_sha256", toJson commitment.baseHeadSha256),
    ("predicted_frontier_token", toJson commitment.predictedFrontierToken),
    ("protocol", toJson commitment.protocol),
    ("provisional_cache_revision", toJson commitment.provisionalCacheRevision),
    ("provisional_parent_cache_revision", toJson commitment.provisionalParentCacheRevision),
    ("provisional_state_sha256", toJson commitment.provisionalStateSha256),
    ("request_id", toJson commitment.requestId),
    ("request_intent_sha256", toJson commitment.requestIntentSha256)]

/-- The source's proof that a committed closure was durably installed. -/
structure SourceInstallReceiptV1 where
  protocol : String
  requestId : String
  resultSha256 : String
  appliedHeadSha256 : String
  renderRootSha256 : String
  sourceStateSha256 : String
  sourceStateBytes : UInt64
  installedOutputHeight : UInt64
  installedTranscriptSha256 : String
  durableUnixMs : UInt64
deriving DecidableEq

instance : ToJson SourceInstallReceiptV1 where
  toJson receipt := .obj [
    ("applied_head_sha256", toJson receipt.appliedHeadSha256),
    ("durable_unix_ms", toJson receipt.durableUnixMs),
    ("installed_output_height", toJson receipt.installedOutputHeight),
    ("installed_transcript_sha256", toJson receipt.installedTranscriptSha256),
    ("protocol", toJson receipt.protocol),
    ("render_root_sha256", toJson receipt.renderRootSha256),
    ("request_id", toJson receipt.requestId),
    ("result_sha256", toJson receipt.resultSha256),
    ("source_state_bytes", toJson receipt.sourceStateBytes),
    ("source_state_sha256", toJson receipt.sourceStateSha256)]

inductive GatewaySessionFailureReasonV1 where
  | expiredReserved
  | permanentEvaluator
  | activationFenceConflict
deriving DecidableEq

instance : ToJson GatewaySessionFailureReasonV1 where
  toJson
    | .expiredReserved => .str "expired_reserved"
    | .permanentEvaluator => .str "permanent_evaluator"
    | .activationFenceConflict => .str "activation_fence_conflict"

/-- The terminal state of a session whose parent can no longer choose a safe child. -/
structure GatewaySessionFailureV1 where
  reason : GatewaySessionFailureReasonV1
  requestId : String
  requestIntentSha256 : String
  baseHeadSha256 : String
  requestExpiresUnixMs : UInt64
  failedUnixMs : UInt64
deriving DecidableEq

instance : ToJson GatewaySessionFailureV1 where
  toJson failure := .obj [
    ("base_head_sha256", toJson failure.baseHeadSha256),
    ("failed_unix_ms", toJson failure.failedUnixMs),
    ("reason", toJson failure.reason),
    ("request_expires_unix_ms", toJson failure.requestExpiresUnixMs),
    ("request_id", toJson failure.requestId),
    ("request_intent_sha256", toJson failure.requestIntentSha256)]

inductive GatewaySourceCommandV1 where
  | admitSession (session : AuthenticatedSessionV2)
  | submitRound (round : AuthenticatedRoundV2) (mirrorPrediction : Option MirrorPredictionCommitmentV1)
  | fetchMissing (requestId resultSha256 : String) (ordinals : List UInt32)
  | sourceAck (receipt : SourceInstallReceiptV1)
deriving DecidableEq

def GatewaySourceCommandV1.json : GatewaySourceCommandV1 → Json
  | .admitSession session => .obj [("kind", .str "admit_session"), ("session", toJson session)]
  | .submitRound round mirrorPrediction =>
    .obj [("kind", .str "submit_round"), ("mirror_prediction", toJson mirrorPrediction), ("round", toJson round)]
  | .fetchMissing requestId resultSha256 ordinals =>
    .obj [("kind", .str "fetch_missing"), ("ordinals", toJson ordinals), ("request_id", toJson requestId),
      ("result_sha256", toJson resultSha256)]
  | .sourceAck receipt => .obj [("kind", .str "source_ack"), ("receipt", toJson receipt)]

instance : ToJson GatewaySourceCommandV1 := ⟨GatewaySourceCommandV1.json⟩

structure GatewaySourceRequestCoreV1 where
  protocol : String
  sessionRecordSha256 : String
  command : GatewaySourceCommandV1
deriving DecidableEq

instance : ToJson GatewaySourceRequestCoreV1 where
  toJson core := .obj [
    ("command", toJson core.command),
    ("protocol", toJson core.protocol),
    ("session_record_sha256", toJson core.sessionRecordSha256)]

structure AuthenticatedGatewaySourceRequestV1 where
  core : GatewaySourceRequestCoreV1
  hmacSha256 : String
deriving DecidableEq

instance : ToJson AuthenticatedGatewaySourceRequestV1 where
  toJson request := .obj [("core", toJson request.core), ("hmac_sha256", toJson request.hmacSha256)]

inductive PendingRoundSummaryV1 where
  | reserved (request : AuthenticatedRoundV2)
  | prepared (request : AuthenticatedRoundV2) (result : AuthenticatedResultV2)
  | staged (request : AuthenticatedRoundV2) (result : AuthenticatedResultV2) (renderer : RendererStageReceiptV2)
deriving DecidableEq

def PendingRoundSummaryV1.json : PendingRoundSummaryV1 → Json
  | .reserved request => .obj [("phase", .str "reserved"), ("request", toJson request)]
  | .prepared request result =>
    .obj [("phase", .str "prepared"), ("request", toJson request), ("result", toJson result)]
  | .staged request result renderer =>
    .obj [("phase", .str "staged"), ("renderer", toJson renderer), ("request", toJson request),
      ("result", toJson result)]

instance : ToJson PendingRoundSummaryV1 := ⟨PendingRoundSummaryV1.json⟩

inductive VerifierGatewayReplyV1 where
  | sessionAccepted (session : AuthenticatedSessionV2) (sessionRecordSha256 : String)
      (pending : Option PendingRoundSummaryV1)
  | roundCommitted (result : AuthenticatedResultV2) (resultSha256 sourceAdmissionSha256 : String) (replayed : Bool)
  | fragment (requestId resultSha256 : String) (descriptor : FragmentDescriptorV2)
  | fetchComplete (requestId resultSha256 : String) (deliveredOrdinals : List UInt32)
  | sourceAcked (requestId resultSha256 appliedHeadSha256 : String)
  | sessionFailed (sessionRecordSha256 : String) (failure : GatewaySessionFailureV1)
  | stale (requestId : String) (outputHeight : UInt64) (headSha256 : String) (frontier : FrontierV2)
      (samplerState : SamplerStateV2) (transcriptSha256 : String)
deriving DecidableEq

def VerifierGatewayReplyV1.json : VerifierGatewayReplyV1 → Json
  | .sessionAccepted session sessionRecordSha256 pending =>
    .obj [("kind", .str "session_accepted"), ("pending", toJson pending), ("session", toJson session),
      ("session_record_sha256", toJson sessionRecordSha256)]
  | .roundCommitted result resultSha256 sourceAdmissionSha256 replayed =>
    .obj [("kind", .str "round_committed"), ("replayed", toJson replayed), ("result", toJson result),
      ("result_sha256", toJson resultSha256), ("source_admission_sha256", toJson sourceAdmissionSha256)]
  | .fragment requestId resultSha256 descriptor =>
    .obj [("descriptor", toJson descriptor), ("kind", .str "fragment"), ("request_id", toJson requestId),
      ("result_sha256", toJson resultSha256)]
  | .fetchComplete requestId resultSha256 deliveredOrdinals =>
    .obj [("delivered_ordinals", toJson deliveredOrdinals), ("kind", .str "fetch_complete"),
      ("request_id", toJson requestId), ("result_sha256", toJson resultSha256)]
  | .sourceAcked requestId resultSha256 appliedHeadSha256 =>
    .obj [("applied_head_sha256", toJson appliedHeadSha256), ("kind", .str "source_acked"),
      ("request_id", toJson requestId), ("result_sha256", toJson resultSha256)]
  | .sessionFailed sessionRecordSha256 failure =>
    .obj [("failure", toJson failure), ("kind", .str "session_failed"),
      ("session_record_sha256", toJson sessionRecordSha256)]
  | .stale requestId outputHeight headSha256 frontier samplerState transcriptSha256 =>
    .obj [("frontier", toJson frontier), ("head_sha256", toJson headSha256), ("kind", .str "stale"),
      ("output_height", toJson outputHeight), ("request_id", toJson requestId), ("sampler_state", toJson samplerState),
      ("transcript_sha256", toJson transcriptSha256)]

instance : ToJson VerifierGatewayReplyV1 := ⟨VerifierGatewayReplyV1.json⟩

inductive VerifierGatewayMessageV1 where
  | source (request : AuthenticatedGatewaySourceRequestV1)
  | gateway (reply : VerifierGatewayReplyV1)
deriving DecidableEq

def VerifierGatewayMessageV1.json : VerifierGatewayMessageV1 → Json
  | .source request => .obj [("direction", .str "source"), ("request", toJson request)]
  | .gateway reply => .obj [("direction", .str "gateway"), ("reply", toJson reply)]

instance : ToJson VerifierGatewayMessageV1 := ⟨VerifierGatewayMessageV1.json⟩

structure VerifierGatewayFrameV1 where
  message : VerifierGatewayMessageV1
  payload : Bytes
deriving DecidableEq

structure VerifierGatewayFrameHeaderV1 where
  protocol : String
  payloadBytes : UInt64
  payloadSha256 : String
  message : VerifierGatewayMessageV1
deriving DecidableEq

def VerifierGatewayFrameHeaderV1.json (header : VerifierGatewayFrameHeaderV1) : Json := .obj [
  ("message", toJson header.message),
  ("payload_bytes", toJson header.payloadBytes),
  ("payload_sha256", toJson header.payloadSha256),
  ("protocol", toJson header.protocol)]

instance : ToJson VerifierGatewayFrameHeaderV1 := ⟨VerifierGatewayFrameHeaderV1.json⟩

section Injective

/-- An optional value whose text is never `null`. -/
theorem optionJson_injective {α : Type} [ToJson α] [LawfulToJson α] (notNull : ∀ value : α, toJson value ≠ Json.null) :
    Function.Injective (toJson : Option α → Json) := by
  intro left right same
  cases left with
  | none =>
    cases right with
    | none => rfl
    | some value => exact absurd same.symm (notNull value)
  | some value =>
    cases right with
    | none => exact absurd same (notNull value)
    | some value' => exact congrArg some (LawfulToJson.toJson_injective same)

instance : LawfulToJson UInt8 := ⟨fun _ _ same => UInt8.toNat_inj.mp (Json.num.inj same)⟩

instance : LawfulToJson CompositeIdentityV2 where
  toJson_injective left right same := by
    have members := Json.obj.inj same
    cases left
    cases right
    simp_all

instance : LawfulToJson CouplingPolicyV2 where
  toJson_injective left right same := by
    cases left <;> cases right
    all_goals
      have members := Json.obj.inj same
      simp_all

instance : LawfulToJson FragmentCoverageV2 where
  toJson_injective left right same := by
    cases left <;> cases right <;> first | rfl | exact absurd (Json.str.inj same) (by decide)

instance : LawfulToJson FragmentRequirementV2 where
  toJson_injective left right same := by
    have members := Json.obj.inj same
    cases left
    cases right
    simp_all

instance : LawfulToJson SessionCoreV2 where
  toJson_injective left right same := by
    have members := Json.obj.inj same
    cases left
    cases right
    simp_all [Vector.toList_inj]

instance : LawfulToJson AuthenticatedSessionV2 where
  toJson_injective left right same := by
    have members := Json.obj.inj same
    cases left
    cases right
    simp_all

instance : LawfulToJson MirrorPredictionCommitmentV1 where
  toJson_injective left right same := by
    have members := Json.obj.inj same
    cases left
    cases right
    simp_all

instance : LawfulToJson (Option MirrorPredictionCommitmentV1) where
  toJson_injective := optionJson_injective fun _ same => Json.noConfusion same

instance : LawfulToJson SourceInstallReceiptV1 where
  toJson_injective left right same := by
    have members := Json.obj.inj same
    cases left
    cases right
    simp_all

instance : LawfulToJson GatewaySessionFailureReasonV1 where
  toJson_injective left right same := by
    cases left <;> cases right <;> first | rfl | exact absurd (Json.str.inj same) (by decide)

instance : LawfulToJson GatewaySessionFailureV1 where
  toJson_injective left right same := by
    have members := Json.obj.inj same
    cases left
    cases right
    simp_all

instance : LawfulToJson GatewaySourceCommandV1 where
  toJson_injective left right same := by
    cases left <;> cases right
    all_goals
      have members := Json.obj.inj same
      simp_all

instance : LawfulToJson GatewaySourceRequestCoreV1 where
  toJson_injective left right same := by
    have members := Json.obj.inj same
    cases left
    cases right
    simp_all

instance : LawfulToJson AuthenticatedGatewaySourceRequestV1 where
  toJson_injective left right same := by
    have members := Json.obj.inj same
    cases left
    cases right
    simp_all

instance : LawfulToJson PendingRoundSummaryV1 where
  toJson_injective left right same := by
    cases left <;> cases right
    all_goals
      have members := Json.obj.inj same
      simp_all

instance : LawfulToJson (Option PendingRoundSummaryV1) where
  toJson_injective := optionJson_injective fun value same => by cases value <;> cases same

instance : LawfulToJson VerifierGatewayReplyV1 where
  toJson_injective left right same := by
    cases left <;> cases right
    all_goals
      have members := Json.obj.inj same
      simp_all

instance : LawfulToJson VerifierGatewayMessageV1 where
  toJson_injective left right same := by
    cases left <;> cases right
    all_goals
      have members := Json.obj.inj same
      simp_all

instance : LawfulToJson VerifierGatewayFrameHeaderV1 where
  toJson_injective left right same := by
    have members := Json.obj.inj same
    cases left
    cases right
    simp_all

end Injective

end Muser.Gateway
