import Muser.AuthoritativeVerifier.Records

/-! # Digests that identify values

SHA-256 is assumed to be free of collisions on the finitely many texts that one run hashes. The
canonical text of a value determines the value, so under this assumption an intent digest
identifies a round core, a head identifies the transition it commits to, and a file name identifies
its request.
-/

namespace Muser.Verifier

instance : LawfulToJson FinishReasonV2 where
  toJson_injective left right same := by
    cases left <;> cases right <;> first | rfl | exact absurd (Json.str.inj same) (by decide)

instance : LawfulToJson SamplerStateV2 where
  toJson_injective left right same := by
    cases left <;> cases right
    all_goals
      have members := Json.obj.inj same
      simp_all

instance : LawfulToJson FrontierV2 where
  toJson_injective left right same := by
    cases left <;> cases right
    all_goals
      have members := Json.obj.inj same
      simp_all

instance : LawfulToJson SparseWeightEntryV2 where
  toJson_injective left right same := by
    have members := Json.obj.inj same
    cases left
    cases right
    simp_all

instance : LawfulToJson SparseWeightRowV2 where
  toJson_injective left right same := by
    have members := Json.obj.inj same
    cases left
    cases right
    simp_all

instance : LawfulToJson DraftEvidenceV2 where
  toJson_injective left right same := by
    cases left <;> cases right
    all_goals
      have members := Json.obj.inj same
      simp_all

/-- The optional intent member shifts the members after it, so it is read off their number. -/
theorem RoundCoreV2.intentMember_injective : Function.Injective RoundCoreV2.intentMember := by
  intro left right same
  cases left with
  | verify =>
    cases right with
    | verify => rfl
    | close reason => simp [intentMember] at same
  | close reason =>
    cases right with
    | verify => simp [intentMember] at same
    | close reason' =>
      have members := Json.obj.inj (Prod.mk.inj (List.cons.inj same).1).2
      simp_all

instance : LawfulToJson RoundCoreV2 where
  toJson_injective left right same := by
    have members := Json.obj.inj same
    have intents : RoundCoreV2.intentMember left.intent = RoundCoreV2.intentMember right.intent := by
      have lengths := congrArg List.length members
      simp only [List.length_append, List.length_cons, List.length_nil] at lengths
      rw [List.append_assoc, List.append_assoc] at members
      have shorter := (List.append_inj members rfl).2
      exact (List.append_inj shorter (by omega)).1
    have same' := RoundCoreV2.intentMember_injective intents
    cases left
    cases right
    simp_all only [List.cons_append, List.nil_append, List.cons.injEq, Prod.mk.injEq, toJson_inj, true_and,
      List.append_cancel_left_eq, and_true]

instance : LawfulToJson HeadTransitionV2 where
  toJson_injective left right same := by
    have members := Json.obj.inj same
    cases left
    cases right
    simp_all

instance : LawfulToJson AuthenticatedRoundV2 where
  toJson_injective left right same := by
    have members := Json.obj.inj same
    cases left
    cases right
    simp_all

instance : LawfulToJson ResultDecisionV2 where
  toJson_injective left right same := by
    cases left <;> cases right
    all_goals
      have members := Json.obj.inj same
      simp_all

instance : LawfulToJson FragmentKindV2 where
  toJson_injective left right same := by
    cases left <;> cases right <;> first | rfl | exact absurd (Json.str.inj same) (by decide)

instance : LawfulToJson FragmentDescriptorV2 where
  toJson_injective left right same := by
    have members := Json.obj.inj same
    cases left
    cases right
    simp_all

instance : LawfulToJson ResultCoreV2 where
  toJson_injective left right same := by
    have members := Json.obj.inj same
    cases left
    cases right
    simp_all

instance : LawfulToJson AuthenticatedResultV2 where
  toJson_injective left right same := by
    have members := Json.obj.inj same
    cases left
    cases right
    simp_all

instance : LawfulToJson RendererStageReceiptV2 where
  toJson_injective left right same := by
    have members := Json.obj.inj same
    cases left
    cases right
    simp_all

instance (directory : Slot) : LawfulToJson directory.Record where
  toJson_injective left right same := by
    cases directory
    all_goals
      have members := Json.obj.inj same
      cases left
      cases right
      simp_all

instance {ρ : Type} [ToJson ρ] [LawfulToJson ρ] : LawfulToJson (JournalEnvelopeV2 ρ) where
  toJson_injective left right same := by
    have members := Json.obj.inj same
    cases left
    cases right
    simp_all

/-- A session text and a transition text differ in their number of members. -/
theorem canonical_session_ne_transition (session : SessionCoreV2) (transition : HeadTransitionV2) :
    canonical session ≠ canonical transition := by
  intro same
  have members := Json.obj.inj (Json.render_injective same)
  simpa using congrArg List.length members

/-- SHA-256 has no collision among the given texts. -/
def CollisionFree (p : Primitives) (texts : List Bytes) : Prop :=
  ∀ left ∈ texts, ∀ right ∈ texts, p.sha256Hex left = p.sha256Hex right → left = right

instance (p : Primitives) (texts : List Bytes) : Decidable (CollisionFree p texts) :=
  inferInstanceAs (Decidable (∀ left ∈ texts, ∀ right ∈ texts, p.sha256Hex left = p.sha256Hex right → left = right))

end Muser.Verifier
