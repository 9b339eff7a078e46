import Muser.Resident.Reuse

/-! # What a resident-only ladder serves

Without a durable tier a prompt is served from the deepest entry that stands for an aligned part of
it or that holds the whole of it with its logits. The lookup below the plan also accepts an entry of
the whole prompt without logits; the plan then refuses what it found and looks no further.
-/

namespace Muser.Resident

open Muser.Engine Muser.Radix

variable {Failure : Type}

namespace PrefixReuse

/-- An entry of the first `cut` tokens that the plan may serve: aligned and shorter than the prompt, or
the whole prompt with its logits. -/
def Servable (reuse : PrefixReuse Failure) (tokens : List Token) (cut : ℕ) : Prop :=
  ∃ entry, reuse.resident.stored reuse.residentIdentity (tokens.take cut) = some entry ∧
    ((cut < tokens.length ∧ cut % residentCutTokens = 0) ∨
      (cut = tokens.length ∧ entry.snapshot.lastLogits.isSome = true))

/-- The whole prompt is held, without logits. -/
def Unwitnessed (reuse : PrefixReuse Failure) (tokens : List Token) : Prop :=
  ∃ entry, reuse.resident.stored reuse.residentIdentity tokens = some entry ∧ entry.snapshot.lastLogits = none

/-- The plan for a new session answers with the deepest servable cut. -/
def ServesDeepest (reuse : PrefixReuse Failure) (tokens : List Token) : Prop :=
  ∃ hit, (reuse.plan [] tokens).1 = .ok (.resident hit) ∧ reuse.Servable tokens hit.cut ∧
    ∀ cut, reuse.Servable tokens cut → cut ≤ hit.cut

variable {reuse : PrefixReuse Failure} {tokens : List Token}

/-- Without a durable tier the plan of a new session is the resident lookup, filtered. -/
theorem plan_residentOnly (residentOnly : reuse.durable = none) :
    (reuse.plan [] tokens).1 = .ok
      (((reuse.resident.lookup reuse.residentIdentity tokens).1.filter
        fun hit => !hit.exact || hit.snapshot.lastLogits.isSome).elim .remoteOrMiss .resident) := by
  simp only [plan, lookupResident, residentOnly, List.isEmpty_nil, Bool.not_true, Bool.false_and, Bool.false_eq_true,
    if_false, Option.elim_none]
  split
  · next found => rw [found, Option.elim_some]
  · next found => rw [found, Option.elim_none]

variable {contents : Contents}

/-- What the lookup may serve and what the plan may serve differ in the exact entry only. -/
theorem servable_iff (represents : reuse.resident.Represents contents)
    (slice : tokens.length < usizeBound) {cut : ℕ} : reuse.Servable tokens cut ↔
      ∃ stored, contents.Serves reuse.residentIdentity tokens (usizeBound - 1) cut stored ∧
        (cut = tokens.length → stored.lastLogits.isSome = true) := by
  constructor
  · rintro ⟨entry, found, rule⟩
    obtain ⟨stored, held, -, carries⟩ := represents.present _ _ entry found
    rcases rule with ⟨shorter, aligned⟩ | ⟨rfl, witnessed⟩
    · refine ⟨stored, ⟨by omega, by omega, Or.inr aligned, held⟩, fun whole => ?_⟩
      omega
    · exact ⟨stored, ⟨le_refl _, by omega, Or.inl rfl, held⟩, fun _ => carries.lastLogits ▸ witnessed⟩
  · rintro ⟨stored, ⟨short, -, rule, held⟩, witnessed⟩
    cases found : reuse.resident.stored reuse.residentIdentity (tokens.take cut) with
    | none => simp [represents.absent _ _ found] at held
    | some entry =>
      obtain ⟨stored', held', -, carries⟩ := represents.present _ _ entry found
      cases held.symm.trans held'
      refine ⟨entry, found, ?_⟩
      rcases Nat.lt_or_eq_of_le short with shorter | whole
      · refine Or.inl ⟨shorter, ?_⟩
        rcases rule with whole | aligned
        · omega
        · exact aligned
      · exact Or.inr ⟨whole, by rw [carries.lastLogits]; exact witnessed whole⟩

theorem unwitnessed_iff (represents : reuse.resident.Represents contents)
    (slice : tokens.length < usizeBound) : reuse.Unwitnessed tokens ↔
      ∃ stored, contents.Serves reuse.residentIdentity tokens (usizeBound - 1) tokens.length stored ∧
        stored.lastLogits = none := by
  constructor
  · rintro ⟨entry, found, bare⟩
    obtain ⟨stored, held, -, carries⟩ := represents.present _ _ entry found
    refine ⟨stored, ⟨le_refl _, by omega, Or.inl rfl, ?_⟩, carries.lastLogits ▸ bare⟩
    rwa [List.take_length]
  · rintro ⟨stored, ⟨-, -, -, held⟩, bare⟩
    rw [List.take_length] at held
    cases found : reuse.resident.stored reuse.residentIdentity tokens with
    | none => simp [represents.absent _ _ found] at held
    | some entry =>
      obtain ⟨stored', held', -, carries⟩ := represents.present _ _ entry found
      cases held.symm.trans held'
      exact ⟨entry, found, carries.lastLogits.trans bare⟩

/-- The plan of a new session misses when nothing may serve, and also when the whole prompt is held
without logits; otherwise it serves the deepest cut. -/
theorem plan_cases_residentOnly (represents : reuse.resident.Represents contents)
    (residentOnly : reuse.durable = none) (slice : tokens.length < usizeBound) :
    (((∀ cut, ¬reuse.Servable tokens cut) ∨ reuse.Unwitnessed tokens) ∧
      (reuse.plan [] tokens).1 = .ok .remoteOrMiss) ∨
    (¬reuse.Unwitnessed tokens ∧ reuse.ServesDeepest tokens) := by
  have answers := ResidentRadix.lookupCapped_answers represents reuse.residentIdentity tokens (usizeBound - 1)
  have planned : (reuse.plan [] tokens).1 = .ok
      (((reuse.resident.lookupCapped reuse.residentIdentity tokens (usizeBound - 1)).1.filter
        fun hit => !hit.exact || hit.snapshot.lastLogits.isSome).elim .remoteOrMiss .resident) :=
    plan_residentOnly residentOnly
  cases found : (reuse.resident.lookupCapped reuse.residentIdentity tokens (usizeBound - 1)).1 with
  | none =>
    rw [found] at answers planned
    refine Or.inl ⟨Or.inl fun cut servable => ?_, planned⟩
    obtain ⟨stored, serves, -⟩ := (servable_iff represents slice).mp servable
    exact answers cut stored serves
  | some hit =>
    rw [found] at answers planned
    obtain ⟨stored, serves, deepest, exact_iff, -, -, logits⟩ := answers
    by_cases bare : hit.exact = true ∧ hit.snapshot.lastLogits = none
    · refine Or.inl ⟨Or.inr ((unwitnessed_iff represents slice).mpr ⟨stored, ?_, by rw [← logits, bare.2]⟩), ?_⟩
      · rwa [exact_iff.mp bare.1] at serves
      · rw [planned]
        simp [Option.filter, bare.1, bare.2]
    · have witnessed : hit.cut = tokens.length → hit.snapshot.lastLogits.isSome = true := by
        intro whole
        rw [Option.isSome_iff_ne_none]
        exact fun none => bare ⟨exact_iff.mpr whole, none⟩
      refine Or.inr ⟨fun unwitnessed => ?_, hit, ?_, ?_, fun cut servable => ?_⟩
      · obtain ⟨other, whole, none⟩ := (unwitnessed_iff represents slice).mp unwitnessed
        have same : hit.cut = tokens.length := le_antisymm serves.1 (deepest _ other whole)
        have held := serves.2.2.2
        rw [same, whole.2.2.2, Option.some.injEq] at held
        have some := witnessed same
        rw [logits, ← held, none] at some
        cases some
      · rw [planned]
        have accepted : (!hit.exact || hit.snapshot.lastLogits.isSome) = true := by
          rw [Bool.or_eq_true, Bool.not_eq_true', Option.isSome_iff_ne_none]
          cases exact_ : hit.exact with
          | false => exact Or.inl rfl
          | true => exact Or.inr fun none => bare ⟨exact_, none⟩
        simp [Option.filter, accepted]
      · exact (servable_iff represents slice).mpr ⟨stored, serves, fun whole => logits ▸ witnessed whole⟩
      · obtain ⟨other, may, -⟩ := (servable_iff represents slice).mp servable
        exact deepest cut other may

/-- One insertion into the resident tier. -/
def insertResident (sha256 : Bytes → Bytes) (layout : ResidentRadix.Layout) (held : List ResidentSnapshot)
    (reuse : PrefixReuse Failure) (identity : Option IdentityDigest) (snapshot : SessionCacheSnapshot)
    (lastLogits : Option (List Logit)) : PrefixReuse Failure :=
  { reuse with resident := (reuse.resident.insertWithLogits sha256 layout held identity snapshot lastLogits).2 }

end PrefixReuse

/-- In every state of a resident-only ladder that holds a servable entry, the deepest one is served unless
the whole prompt is held without logits; and after one more insertion the prompt is not missed exactly
while a servable entry is left and that insertion does not leave the whole prompt without logits. -/
theorem resident_plan_complete {sha256 : Bytes → Bytes} {capacity : ℕ} {reuse : PrefixReuse Failure}
    {published : List (Option IdentityDigest × Cut)} (reached : Reached sha256 capacity reuse published)
    (residentOnly : reuse.durable = none) {tokens : List Token} (slice : tokens.length < usizeBound) :
    ((∃ cut, reuse.Servable tokens cut) → (reuse.ServesDeepest tokens ↔ ¬reuse.Unwitnessed tokens)) ∧
    ∀ layout held identity snapshot lastLogits,
      let next := reuse.insertResident sha256 layout held identity snapshot lastLogits
      ((next.plan [] tokens).1 ≠ .ok .remoteOrMiss ↔ (∃ cut, next.Servable tokens cut) ∧ ¬next.Unwitnessed tokens) := by
  refine ⟨fun ⟨cut, servable⟩ => ?_, fun layout held identity snapshot lastLogits => ?_⟩
  · obtain ⟨-, contents, represents, -⟩ := reached.publishes
    rcases PrefixReuse.plan_cases_residentOnly represents residentOnly slice with
      ⟨none | unwitnessed, missed⟩ | ⟨witnessed, serves⟩
    · exact absurd servable (none cut)
    · refine iff_of_false ?_ (not_not.mpr unwitnessed)
      rintro ⟨hit, served, -⟩
      rw [missed] at served
      cases served
    · exact iff_of_true serves witnessed
  · obtain ⟨-, contents, represents, -⟩ := (reached.residentInsert layout held identity snapshot lastLogits).publishes
    intro next
    have planned : (((∀ cut, ¬next.Servable tokens cut) ∨ next.Unwitnessed tokens) ∧
        (next.plan [] tokens).1 = .ok .remoteOrMiss) ∨ (¬next.Unwitnessed tokens ∧ next.ServesDeepest tokens) :=
      PrefixReuse.plan_cases_residentOnly represents residentOnly slice
    rcases planned with
      ⟨missing, missed⟩ | ⟨witnessed, hit, served, servable, -⟩
    · refine iff_of_false (not_not.mpr missed) ?_
      rintro ⟨⟨cut, servable⟩, witnessed⟩
      rcases missing with none | unwitnessed
      · exact none cut servable
      · exact witnessed unwitnessed
    · refine iff_of_true ?_ ⟨⟨hit.cut, servable⟩, witnessed⟩
      rw [served]
      simp

/-- The cut after a number of equal tokens, every plane zero. -/
def zeroCut (count : ℕ) : SessionCacheSnapshot where
  position := count
  tokens := List.replicate count 7
  elementsPerToken := 1
  layers := (List.range museLayerCount).map fun layer =>
    { layer := UInt32.ofNat layer
      logicalStart := 0
      logicalCount := count
      encoding := .f16Le
      key := List.replicate (count * 2) 0
      value := List.replicate (count * 2) 0 }

def zeroLayout : ResidentRadix.Layout := ⟨id, Node.Reorders.refl⟩

def emptyLadder : PrefixReuse String where
  resident := { oneTokenRadix with capacityBytes := 4096 }
  durable := none

/-- The ladder that holds the first 256 tokens of a prompt. -/
def alignedLadder : PrefixReuse String :=
  emptyLadder.insertResident sha256OfZeros zeroLayout [] none (zeroCut 256) none

/-- The same ladder after the whole prompt was inserted without logits. -/
def shadowedLadder : PrefixReuse String :=
  alignedLadder.insertResident sha256OfZeros zeroLayout [] none (zeroCut 257) none

/-- A prompt of 257 tokens. -/
def zeroPrompt : List Token := List.replicate 257 7

theorem aligned_reached : ∃ published, Reached sha256OfZeros 4096 alignedLadder published := by
  have fresh : Reached sha256OfZeros 4096 emptyLadder [] := .new rfl
  exact ⟨_, fresh.residentInsert zeroLayout [] none (zeroCut 256) none⟩

theorem shadowed_reached : ∃ published, Reached sha256OfZeros 4096 shadowedLadder published := by
  obtain ⟨published, reached⟩ := aligned_reached
  exact ⟨_, reached.residentInsert zeroLayout [] none (zeroCut 257) none⟩

/-- A stored aligned part of a prompt is servable. -/
theorem servable_of_isSome {reuse : PrefixReuse Failure} {tokens : List Token} {cut : ℕ}
    (found : (reuse.resident.stored reuse.residentIdentity (tokens.take cut)).isSome = true)
    (shorter : cut < tokens.length) (aligned : cut % residentCutTokens = 0) : reuse.Servable tokens cut := by
  obtain ⟨entry, found⟩ := Option.isSome_iff_exists.mp found
  exact ⟨entry, found, Or.inl ⟨shorter, aligned⟩⟩

private theorem ladders_evaluated :
    zeroPrompt.length < usizeBound ∧ 256 < zeroPrompt.length ∧
      (alignedLadder.resident.stored alignedLadder.residentIdentity (zeroPrompt.take 256)).isSome = true ∧
      alignedLadder.resident.stored alignedLadder.residentIdentity zeroPrompt = none ∧
      (shadowedLadder.resident.stored shadowedLadder.residentIdentity (zeroPrompt.take 256)).isSome = true ∧
      (alignedLadder.plan [] zeroPrompt).1 ≠ .ok .remoteOrMiss ∧
        (shadowedLadder.plan [] zeroPrompt).1 = .ok .remoteOrMiss := by
  decide +kernel

/-- The ladder with the aligned part alone serves the prompt. -/
theorem resident_plan_complete_aligned : alignedLadder.ServesDeepest zeroPrompt := by
  obtain ⟨published, reached⟩ := aligned_reached
  obtain ⟨bounded, shorter, found, absent, -⟩ := ladders_evaluated
  have complete := (resident_plan_complete reached rfl bounded).1
  have servable : alignedLadder.Servable zeroPrompt 256 :=
    servable_of_isSome found shorter rfl
  refine (complete ⟨256, servable⟩).mpr ?_
  rintro ⟨entry, found, -⟩
  rw [absent] at found
  cases found

/-- The whole prompt without logits hides the aligned part that served it before. -/
theorem shadowed_prompt_missed :
    (∃ published, Reached sha256OfZeros 4096 shadowedLadder published) ∧ shadowedLadder.durable = none ∧
      shadowedLadder.Servable zeroPrompt 256 ∧
      (alignedLadder.plan [] zeroPrompt).1 ≠ .ok .remoteOrMiss ∧
      (shadowedLadder.plan [] zeroPrompt).1 = .ok .remoteOrMiss := by
  obtain ⟨-, shorter, -, -, found, served, missed⟩ := ladders_evaluated
  exact ⟨shadowed_reached, rfl, servable_of_isSome found shorter rfl, served, missed⟩

end Muser.Resident
