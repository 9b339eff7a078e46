import Muser.Cluster.Schedule
import Muser.Lib.CanonicalJson
import Mathlib.Tactic.Common

/-! # Manifests of a handoff

What a producer says before the bytes: which request it answers, which model and prompt it computed,
which components it carries and which segments it declares. A manifest travels as JSON, its members in
the order of its fields; a field that is skipped leaves no member.
-/

namespace Muser.Cluster

structure ExactIdentityV1 where
  adapterSha256 : String
  chatTemplateSha256 : String
  contextPolicySha256 : String
  modelRevision : String
  modelSha256 : String
  tokenizerRevision : String
  tokenizerSha256 : String
deriving DecidableEq

inductive ComponentKindV2 where
  | targetKv
  | dflashContext
  | visionContext
deriving DecidableEq

structure ComponentV2 where
  id : String
  kind : ComponentKindV2
  required : Bool
  identitySha256 : String
deriving DecidableEq

structure HmacIdentityV2 where
  keyId : String
  epoch : ℕ
deriving DecidableEq

structure MultimodalIdentityV2 where
  projectorSha256 : String
  preprocessingSha256 : String
  imageSequenceSha256 : String
deriving DecidableEq

structure SegmentDescriptorV2 extends Coordinates where
  sequence : UInt32
  byteLen : ℕ
  sha256 : String
deriving DecidableEq

structure BeginManifestV2 where
  protocol : String
  transferId : String
  generation : ℕ
  createdUnixMs : ℕ
  expiresUnixMs : ℕ
  identity : ExactIdentityV1
  promptTokenIds : List UInt32
  multimodal : Option MultimodalIdentityV2
  hmac : HmacIdentityV2
  components : List ComponentV2
  deferredSegments : Bool
  segments : List SegmentDescriptorV2
deriving DecidableEq

structure SealCoreV2 where
  transferId : String
  generation : ℕ
  beginSha256 : String
  descriptorSha256 : String
  payloadSha256 : String
  segmentCount : UInt32
  totalBytes : ℕ
deriving DecidableEq

structure SealManifestV2 where
  core : SealCoreV2
  hmacSha256 : String
deriving DecidableEq

section Json

def ComponentKindV2.name : ComponentKindV2 → String
  | .targetKv => "target_kv"
  | .dflashContext => "dflash_context"
  | .visionContext => "vision_context"

def SegmentRoleV2.name : SegmentRoleV2 → String
  | .nopeKey => "nope_key"
  | .nopeValue => "nope_value"
  | .swaKey => "swa_key"
  | .swaValue => "swa_value"
  | .nopeTile => "nope_tile"
  | .swaTile => "swa_tile"
  | .dflashKey => "dflash_key"
  | .dflashValue => "dflash_value"
  | .auxiliary => "auxiliary"

instance : ToJson ℕ := ⟨.num⟩

instance : ToJson ComponentKindV2 := ⟨fun kind => .str kind.name⟩

instance : ToJson SegmentRoleV2 := ⟨fun role => .str role.name⟩

instance : ToJson ExactIdentityV1 where
  toJson identity := .obj [
    ("adapter_sha256", toJson identity.adapterSha256),
    ("chat_template_sha256", toJson identity.chatTemplateSha256),
    ("context_policy_sha256", toJson identity.contextPolicySha256),
    ("model_revision", toJson identity.modelRevision),
    ("model_sha256", toJson identity.modelSha256),
    ("tokenizer_revision", toJson identity.tokenizerRevision),
    ("tokenizer_sha256", toJson identity.tokenizerSha256)]

instance : ToJson ComponentV2 where
  toJson component := .obj [
    ("id", toJson component.id),
    ("kind", toJson component.kind),
    ("required", toJson component.required),
    ("identity_sha256", toJson component.identitySha256)]

instance : ToJson HmacIdentityV2 where
  toJson hmac := .obj [("key_id", toJson hmac.keyId), ("epoch", toJson hmac.epoch)]

instance : ToJson MultimodalIdentityV2 where
  toJson multimodal := .obj [
    ("projector_sha256", toJson multimodal.projectorSha256),
    ("preprocessing_sha256", toJson multimodal.preprocessingSha256),
    ("image_sequence_sha256", toJson multimodal.imageSequenceSha256)]

instance : ToJson SegmentDescriptorV2 where
  toJson descriptor := .obj [
    ("sequence", toJson descriptor.sequence),
    ("component_id", toJson descriptor.componentId),
    ("role", toJson descriptor.role),
    ("layer", toJson descriptor.layer),
    ("logical_start", toJson descriptor.logicalStart),
    ("logical_count", toJson descriptor.logicalCount),
    ("element_type", toJson descriptor.elementType),
    ("elements_per_token", toJson descriptor.elementsPerToken),
    ("byte_len", toJson descriptor.byteLen),
    ("sha256", toJson descriptor.sha256)]

/-- A mark that is written only where it is set. -/
def deferredMember (deferredSegments : Bool) : List (String × Json) :=
  if deferredSegments then [("deferred_segments", .bool true)] else []

instance : ToJson BeginManifestV2 where
  toJson manifest := .obj ([
    ("protocol", toJson manifest.protocol),
    ("transfer_id", toJson manifest.transferId),
    ("generation", toJson manifest.generation),
    ("created_unix_ms", toJson manifest.createdUnixMs),
    ("expires_unix_ms", toJson manifest.expiresUnixMs),
    ("identity", toJson manifest.identity),
    ("prompt_token_ids", toJson manifest.promptTokenIds),
    ("multimodal", toJson manifest.multimodal),
    ("hmac", toJson manifest.hmac),
    ("components", toJson manifest.components)] ++ deferredMember manifest.deferredSegments ++
    [("segments", toJson manifest.segments)])

instance : ToJson SealCoreV2 where
  toJson core := .obj [
    ("transfer_id", toJson core.transferId),
    ("generation", toJson core.generation),
    ("begin_sha256", toJson core.beginSha256),
    ("descriptor_sha256", toJson core.descriptorSha256),
    ("payload_sha256", toJson core.payloadSha256),
    ("segment_count", toJson core.segmentCount),
    ("total_bytes", toJson core.totalBytes)]

instance : ToJson SealManifestV2 where
  toJson manifest := .obj [("core", toJson manifest.core), ("hmac_sha256", toJson manifest.hmacSha256)]

instance : LawfulToJson ℕ := ⟨fun _ _ same => Json.num.inj same⟩

instance : LawfulToJson ComponentKindV2 where
  toJson_injective left right same := by
    cases left <;> cases right <;> first | rfl | exact absurd (Json.str.inj same) (by decide)

instance : LawfulToJson SegmentRoleV2 where
  toJson_injective left right same := by
    cases left <;> cases right <;> first | rfl | exact absurd (Json.str.inj same) (by decide)

/-- An optional value is told from its absence where the value is never written as null. -/
theorem lawful_option {α : Type} [ToJson α] [LawfulToJson α] (solid : ∀ value : α, toJson value ≠ .null) :
    LawfulToJson (Option α) where
  toJson_injective left right same := by
    cases left with
    | none =>
      cases right with
      | none => rfl
      | some value => exact absurd same.symm (solid value)
    | some value =>
      cases right with
      | none => exact absurd same (solid value)
      | some value' => exact congrArg some (LawfulToJson.toJson_injective same)

instance : LawfulToJson (Option ℕ) := lawful_option fun _ => by rintro ⟨⟩

instance : LawfulToJson ExactIdentityV1 where
  toJson_injective left right same := by
    have members := Json.obj.inj same
    cases left
    cases right
    simp_all

instance : LawfulToJson ComponentV2 where
  toJson_injective left right same := by
    have members := Json.obj.inj same
    cases left
    cases right
    simp_all

instance : LawfulToJson HmacIdentityV2 where
  toJson_injective left right same := by
    have members := Json.obj.inj same
    cases left
    cases right
    simp_all

instance : LawfulToJson MultimodalIdentityV2 where
  toJson_injective left right same := by
    have members := Json.obj.inj same
    cases left
    cases right
    simp_all

instance : LawfulToJson (Option MultimodalIdentityV2) := lawful_option fun _ => by rintro ⟨⟩

instance : LawfulToJson SegmentDescriptorV2 where
  toJson_injective left right same := by
    have members := Json.obj.inj same
    obtain ⟨⟨_, _, _, _, _, _, _⟩, _, _, _⟩ := left
    obtain ⟨⟨_, _, _, _, _, _, _⟩, _, _, _⟩ := right
    simp_all

instance : LawfulToJson BeginManifestV2 where
  toJson_injective left right same := by
    have members := Json.obj.inj same
    cases left with
    | mk _ _ _ _ _ _ _ _ _ _ deferred _ =>
      cases right with
      | mk _ _ _ _ _ _ _ _ _ _ deferred' _ =>
        cases deferred <;> cases deferred' <;>
          simp only [deferredMember, Bool.false_eq_true, ↓reduceIte, List.cons_append, List.nil_append, List.cons.injEq,
            Prod.mk.injEq, toJson_inj, true_and, and_true, String.reduceEq, and_false, reduceCtorEq] at members
        all_goals simp_all only

instance : LawfulToJson SealCoreV2 where
  toJson_injective left right same := by
    have members := Json.obj.inj same
    cases left
    cases right
    simp_all

instance : LawfulToJson SealManifestV2 where
  toJson_injective left right same := by
    have members := Json.obj.inj same
    cases left
    cases right
    simp_all

instance : LawfulToJson (Option SegmentDescriptorV2) := lawful_option fun _ => by rintro ⟨⟩

end Json

end Muser.Cluster
