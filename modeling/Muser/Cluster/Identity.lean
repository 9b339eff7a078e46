import Muser.Cluster.Manifest
import Muser.Lib.Text

/-! # Admission of a transfer

A receiver is armed for one request. It asks the producer under an id made of the clock and of a
counter, and the producer stamps the transfer with that id and a generation. What the begin manifest
says is compared with the request before any sink sees it.
-/

namespace Muser.Cluster

open Text

def requestIdNamespace : String := "muser-"

/-- The id of a request, minted by the receiver. -/
def requestId (nowUnixMs counter : ℕ) : String :=
  requestIdNamespace ++ toString nowUnixMs ++ "-" ++ toString counter

/-- The id that a producer stamps on a transfer of the request. -/
def stampedTransferId (request : String) (generation : ℕ) : String := request ++ "-" ++ toString generation

def transferIdMatches (expectedPrefix transferId : String) : Bool :=
  startsWith transferId.toList expectedPrefix.toList || !startsWith transferId.toList requestIdNamespace.toList

structure BeginExpectationsV2 where
  identity : ExactIdentityV1
  promptTokenIds : List UInt32
  targetCacheIdentitySha256 : String
  dflashIdentitySha256 : Option String
  multimodal : Option MultimodalIdentityV2
  expectedTransferIdPrefix : Option String
  maxContext : ℕ
  prefixCut : ℕ
  heldTokenIds : List UInt32
deriving DecidableEq

def validation (message : String) : HandoffError := .validation message

def BeginManifestV2.componentsOf (manifest : BeginManifestV2) (kind : ComponentKindV2) : List ComponentV2 :=
  manifest.components.filter fun component => component.kind = kind

/-- A declared segment has the coordinates of its intent; the component was compared by its kind. -/
def SegmentDescriptorV2.declares (declared : SegmentDescriptorV2) (intent : SegmentIntent) : Bool :=
  declared.sequence = intent.sequence && declared.role = intent.role && declared.layer = intent.layer &&
    declared.logicalStart = intent.logicalStart && declared.logicalCount = intent.logicalCount &&
    declared.elementType = intent.elementType && declared.elementsPerToken = intent.elementsPerToken

def declaredScheduleIsSpan (manifest : BeginManifestV2) (prefixCut : ℕ) : Bool :=
  match museScheduleSpan manifest.promptTokenIds.length prefixCut none with
  | .ok (some expected) =>
    let targetIds := (manifest.componentsOf .targetKv).map (·.id)
    let declared := manifest.segments.filter fun segment => targetIds.contains segment.componentId
    declared.length = expected.segments.length &&
      (declared.zip expected.segments).all fun pair => pair.1.declares pair.2
  | _ => false

/-- The component of the target: one, required, of the expected identity. -/
def targetMatches (expected : String) : List ComponentV2 → Bool
  | [component] => component.required && component.identitySha256 = expected
  | _ => false

/-- The component of the draft model: there exactly when it is expected. -/
def dflashMatches : Option String → List ComponentV2 → Bool
  | none, [] => true
  | some expected, [component] => component.required && component.identitySha256 = expected
  | _, _ => false

namespace BeginExpectationsV2

def validatePrefixCut (expectations : BeginExpectationsV2) (manifest : BeginManifestV2) : Except HandoffError Unit := do
  let position := manifest.promptTokenIds.length
  let cut := expectations.prefixCut
  reject (cut % prefixCutAlign ≠ 0 || position ≤ cut)
    (validation "delta prefix cut is not a 256-aligned cut inside the prompt")
  reject (expectations.heldTokenIds.length < cut || expectations.heldTokenIds.take cut ≠ manifest.promptTokenIds.take cut)
    (validation "delta prefix cut names a prefix the receiving session does not hold")
  reject (!manifest.deferredSegments && !declaredScheduleIsSpan manifest cut)
    (validation "declared target schedule is not the span schedule for the prefix cut")

def namesAnother (expectations : BeginExpectationsV2) (manifest : BeginManifestV2) : Bool :=
  expectations.expectedTransferIdPrefix.any fun requested => !transferIdMatches requested manifest.transferId

def validate (expectations : BeginExpectationsV2) (manifest : BeginManifestV2) : Except HandoffError Unit := do
  reject (manifest.generation = 0) (validation "handoff generation zero is never installable")
  reject (expectations.namesAnother manifest) (validation "handoff transfer id names a different request")
  reject (manifest.identity ≠ expectations.identity) (validation "model/tokenizer/template/adapter identity mismatch")
  reject (manifest.promptTokenIds ≠ expectations.promptTokenIds)
    (validation "remote prompt tokens differ from the exact request")
  reject (manifest.promptTokenIds.isEmpty || expectations.maxContext < manifest.promptTokenIds.length)
    (validation "remote prefix is outside the armed context bound")
  reject (manifest.multimodal ≠ expectations.multimodal)
    (validation "multimodal identity differs from the armed request")
  reject (!targetMatches expectations.targetCacheIdentitySha256 (manifest.componentsOf .targetKv))
    (validation "target cache component identity mismatch")
  reject (!dflashMatches expectations.dflashIdentitySha256 (manifest.componentsOf .dflashContext))
    (validation "DFlash component identity or requirement mismatch")
  reject (!(manifest.componentsOf .visionContext).isEmpty)
    (validation "vision state is represented by the multimodal identity, not a cache component")
  if expectations.prefixCut ≠ 0 then expectations.validatePrefixCut manifest else .ok ()

end BeginExpectationsV2

section Ids

theorem dash_not_mem_toDigits (value : ℕ) : '-' ∉ Nat.toDigits 10 value := by
  intro member
  exact absurd (Nat.isDigit_of_mem_toDigits (by decide) (by decide) member) (by decide)

theorem toList_requestId (now counter : ℕ) : (requestId now counter).toList =
    requestIdNamespace.toList ++ (Nat.toDigits 10 now ++ '-' :: Nat.toDigits 10 counter) := by
  simp only [requestId, String.toList_append, Nat.toString_eq_repr, Nat.toList_repr, List.append_assoc]
  rfl

theorem toList_stampedTransferId (request : String) (generation : ℕ) :
    (stampedTransferId request generation).toList = request.toList ++ '-' :: Nat.toDigits 10 generation := by
  simp only [stampedTransferId, String.toList_append, Nat.toString_eq_repr, Nat.toList_repr, List.append_assoc]
  rfl

/-- An armed request admits a transfer of a request exactly when both were minted at the same time and
the digits of its counter start those of the other. -/
theorem transferIdMatches_stamped (now counter now' counter' generation : ℕ) :
    transferIdMatches (requestId now counter) (stampedTransferId (requestId now' counter') generation) = true ↔
      now = now' ∧ Nat.toDigits 10 counter <+: Nat.toDigits 10 counter' := by
  have stamped : (stampedTransferId (requestId now' counter') generation).toList =
      requestIdNamespace.toList ++ (Nat.toDigits 10 now' ++ '-' ::
        (Nat.toDigits 10 counter' ++ '-' :: Nat.toDigits 10 generation)) := by
    rw [toList_stampedTransferId, toList_requestId, List.append_assoc, List.append_assoc, List.cons_append]
  have minted : startsWith (stampedTransferId (requestId now' counter') generation).toList requestIdNamespace.toList =
      true := by
    rw [startsWith_iff, stamped]
    exact List.prefix_append _ _
  rw [transferIdMatches, minted, Bool.not_true, Bool.or_false, startsWith_iff, stamped, toList_requestId,
    List.prefix_append_right_inj, field_prefix_iff (dash_not_mem_toDigits now) (dash_not_mem_toDigits now'),
    prefix_field_iff (dash_not_mem_toDigits counter)]
  refine and_congr_left' ⟨fun same => ?_, congrArg _⟩
  rw [← Nat.ofDigitChars_ten_toDigits (n := now), same, Nat.ofDigitChars_ten_toDigits]

end Ids

section Isolation

/-- The counters run together: the digits of the armed request start those of the other, in the same
millisecond. -/
def Collides (now counter now' counter' : ℕ) : Prop := now = now' ∧ Nat.toDigits 10 counter <+: Nat.toDigits 10 counter'

instance (now counter now' counter' : ℕ) : Decidable (Collides now counter now' counter') :=
  inferInstanceAs (Decidable (_ ∧ _))

/-- A refused id is refused whatever else the manifest says. -/
theorem validate_of_namesAnother {expectations : BeginExpectationsV2} {manifest : BeginManifestV2}
    (another : expectations.namesAnother manifest = true) : ∃ error, expectations.validate manifest = .error error := by
  cases accepted : expectations.validate manifest with
  | error error => exact ⟨error, rfl⟩
  | ok answer =>
    rw [BeginExpectationsV2.validate, check_eq_ok_iff, check_eq_ok_iff,
      @reject_eq_ok_iff _ (expectations.namesAnother manifest),
      another] at accepted
    exact absurd accepted.2.1 (Bool.noConfusion)

def exactIdentity : ExactIdentityV1 where
  adapterSha256 := "a"
  chatTemplateSha256 := "b"
  contextPolicySha256 := "c"
  modelRevision := "m"
  modelSha256 := "d"
  tokenizerRevision := "t"
  tokenizerSha256 := "e"

/-- A receiver armed for two tokens. -/
def armed (request : String) : BeginExpectationsV2 where
  identity := exactIdentity
  promptTokenIds := [1, 2]
  targetCacheIdentitySha256 := "f"
  dflashIdentitySha256 := none
  multimodal := none
  expectedTransferIdPrefix := some request
  maxContext := 8
  prefixCut := 0
  heldTokenIds := []

/-- What a producer of the two tokens stamps. -/
def produced (transferId : String) : BeginManifestV2 where
  protocol := "kvpack-live-handoff-v2"
  transferId := transferId
  generation := 5
  createdUnixMs := 10
  expiresUnixMs := 30
  identity := exactIdentity
  promptTokenIds := [1, 2]
  multimodal := none
  hmac := { keyId := "loop-key", epoch := 4 }
  components := [{ id := "target", kind := .targetKv, required := true, identitySha256 := "f" }]
  deferredSegments := false
  segments := []

theorem validate_produced {request transferId : String} (admitted : transferIdMatches request transferId = true) :
    (armed request).validate (produced transferId) = .ok () := by
  have names : (armed request).namesAnother (produced transferId) = false := by
    rw [BeginExpectationsV2.namesAnother, armed, produced, Option.any_some, admitted, Bool.not_true]
  rw [BeginExpectationsV2.validate, names]
  rfl

/-- No transfer of the other request is admitted, and no manifest that carries its id is accepted. -/
structure Isolated (now counter now' counter' : ℕ) : Prop where
  unmatched : ∀ generation,
    transferIdMatches (requestId now counter) (stampedTransferId (requestId now' counter') generation) = false
  refused : ∀ (expectations : BeginExpectationsV2) (manifest : BeginManifestV2) (generation : ℕ),
    expectations.expectedTransferIdPrefix = some (requestId now counter) →
    manifest.transferId = stampedTransferId (requestId now' counter') generation →
    ∃ error, expectations.validate manifest = .error error

theorem isolated_iff (now counter now' counter' : ℕ) :
    Isolated now counter now' counter' ↔ ¬Collides now counter now' counter' := by
  constructor
  · intro isolated collides
    have admitted := (transferIdMatches_stamped now counter now' counter' 5).mpr collides
    obtain ⟨error, refused⟩ := isolated.refused (armed (requestId now counter))
      (produced (stampedTransferId (requestId now' counter') 5)) 5 rfl rfl
    rw [validate_produced admitted] at refused
    cases refused
  · intro apart
    have unmatched (generation : ℕ) :
        transferIdMatches (requestId now counter) (stampedTransferId (requestId now' counter') generation) = false := by
      rw [← Bool.not_eq_true, transferIdMatches_stamped]
      exact apart
    refine ⟨unmatched, fun expectations manifest generation asked stamped => validate_of_namesAnother ?_⟩
    rw [BeginExpectationsV2.namesAnother, asked, Option.any_some, stamped, unmatched, Bool.not_false]

/-- The requests 1 and 12 of one millisecond: the first admits the transfers of the second. -/
theorem isolation_fails : requestId 77 1 ≠ requestId 77 12 ∧
    transferIdMatches (requestId 77 1) (stampedTransferId (requestId 77 12) 5) = true ∧
    (armed (requestId 77 1)).validate (produced (stampedTransferId (requestId 77 12) 5)) = .ok () := by
  have admitted := (transferIdMatches_stamped 77 1 77 12 5).mpr (by decide)
  exact ⟨by decide, admitted, validate_produced admitted⟩

end Isolation

end Muser.Cluster
