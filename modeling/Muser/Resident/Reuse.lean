import Muser.Resident.History

/-! # The reuse ladder

A prompt is served from the current session, from the resident tier, from the durable tier, or not
at all. The durable tier is the authority: it is asked first, its deepest cut caps what the
resident tier may serve, and its failure is the ladder's failure. How it resolves a cut is the
business of another store, so it appears here by its identity and by its answers.
-/

namespace Muser.Resident

open Muser.Engine Muser.Radix

structure DurableHit where
  cut : ℕ
  manifestId : Bytes
deriving DecidableEq

variable {Failure : Type}

/-- A durable tier: the identity it authenticates for, and what it resolves for a prompt. -/
structure DurableCache (Failure : Type) where
  identity : IdentityDigest
  findDeepest : List Token → Except Failure (Option DurableHit)

inductive ReusePlan where
  | currentSession (matchedTokens : ℕ)
  | resident (hit : ResidentHit)
  | durable (hit : DurableHit)
  | remoteOrMiss
deriving DecidableEq

structure PrefixReuse (Failure : Type) where
  resident : ResidentRadix
  durable : Option (DurableCache Failure)

namespace PrefixReuse

def new (residentCapacityBytes : ℕ) : Except ResidentError (PrefixReuse Failure) := do
  let resident ← ResidentRadix.new residentCapacityBytes
  .ok { resident := resident, durable := none }

def setDurable (reuse : PrefixReuse Failure) (durable : DurableCache Failure) : PrefixReuse Failure :=
  { reuse with durable := some durable }

def residentIdentity (reuse : PrefixReuse Failure) : Option IdentityDigest := reuse.durable.map DurableCache.identity

/-- Publish the cut a session exports, with the logits it has cached. -/
def publishResident (sha256 : Bytes → Bytes) (layout : ResidentRadix.Layout) (held : List ResidentSnapshot)
    (reuse : PrefixReuse Failure) (snapshot : SessionCacheSnapshot) (cachedLogits : Option (List Logit)) :
    PrefixReuse Failure :=
  { reuse with
    resident :=
      (reuse.resident.insertWithLogits sha256 layout held reuse.residentIdentity snapshot cachedLogits).2 }

/-- The resident lookup, capped by what the durable tier resolved where there is one. -/
def lookupResident (reuse : PrefixReuse Failure) (authenticated : Option DurableHit) (tokens : List Token) :
    Option ResidentHit × ResidentRadix :=
  match reuse.durable with
  | some _ => reuse.resident.lookupCapped reuse.residentIdentity tokens (authenticated.elim 0 DurableHit.cut)
  | none => reuse.resident.lookup reuse.residentIdentity tokens

/-- Resolve the route without touching session state. -/
def plan (reuse : PrefixReuse Failure) (current tokens : List Token) :
    Except Failure ReusePlan × PrefixReuse Failure :=
  if !current.isEmpty && decide (current.length ≤ tokens.length) && tokens.take current.length == current then
    (.ok (.currentSession current.length), reuse)
  else
    match reuse.durable.elim (.ok none) fun durable => durable.findDeepest tokens with
    | .error failure => (.error failure, reuse)
    | .ok authenticated =>
      let found := reuse.lookupResident authenticated tokens
      let next := { reuse with resident := found.2 }
      match found.1.filter fun hit => !hit.exact || hit.snapshot.lastLogits.isSome with
      | some hit => (.ok (.resident hit), next)
      | none =>
        match authenticated with
        | some hit => (.ok (.durable hit), next)
        | none => (.ok .remoteOrMiss, next)

end PrefixReuse

/-- Record a cut if its insertion was accepted. -/
def recordPublished (outcome : Except ResidentError Bool) (identity : Option IdentityDigest) (cut : Cut)
    (published : List (Option IdentityDigest × Cut)) : List (Option IdentityDigest × Cut) :=
  match outcome with
  | .ok _ => (identity, cut) :: published
  | .error _ => published

/-- The states of a ladder, with the cuts that were published to its resident tier and under which
identity. Durable tiers come and go, and callers may use the resident tier directly. -/
inductive Reached (sha256 : Bytes → Bytes) (capacity : ℕ) :
    PrefixReuse Failure → List (Option IdentityDigest × Cut) → Prop
  | new {reuse : PrefixReuse Failure} (fresh : PrefixReuse.new capacity = .ok reuse) : Reached sha256 capacity reuse []
  | setDurable {reuse : PrefixReuse Failure} {published : List (Option IdentityDigest × Cut)}
      (reached : Reached sha256 capacity reuse published) (durable : DurableCache Failure) :
      Reached sha256 capacity (reuse.setDurable durable) published
  | publishResident {reuse : PrefixReuse Failure} {published : List (Option IdentityDigest × Cut)}
      (reached : Reached sha256 capacity reuse published) (layout : ResidentRadix.Layout) (held : List ResidentSnapshot)
      (snapshot : SessionCacheSnapshot) (cachedLogits : Option (List Logit)) :
      Reached sha256 capacity (reuse.publishResident sha256 layout held snapshot cachedLogits)
        (recordPublished
          (reuse.resident.insertWithLogits sha256 layout held reuse.residentIdentity snapshot cachedLogits).1
          reuse.residentIdentity ⟨snapshot, cachedLogits⟩ published)
  | residentInsert {reuse : PrefixReuse Failure} {published : List (Option IdentityDigest × Cut)}
      (reached : Reached sha256 capacity reuse published) (layout : ResidentRadix.Layout) (held : List ResidentSnapshot)
      (identity : Option IdentityDigest) (snapshot : SessionCacheSnapshot) (lastLogits : Option (List Logit)) :
      Reached sha256 capacity
        { reuse with resident := (reuse.resident.insertWithLogits sha256 layout held identity snapshot lastLogits).2 }
        (recordPublished (reuse.resident.insertWithLogits sha256 layout held identity snapshot lastLogits).1
          identity ⟨snapshot, lastLogits⟩ published)
  | residentLookup {reuse : PrefixReuse Failure} {published : List (Option IdentityDigest × Cut)}
      (reached : Reached sha256 capacity reuse published) (identity : Option IdentityDigest) (tokens : List Token)
      (maxCut : ℕ) :
      Reached sha256 capacity { reuse with resident := (reuse.resident.lookupCapped identity tokens maxCut).2 } published
  | plan {reuse : PrefixReuse Failure} {published : List (Option IdentityDigest × Cut)}
      (reached : Reached sha256 capacity reuse published) (current tokens : List Token) :
      Reached sha256 capacity (reuse.plan current tokens).2 published

/-- The resident tier stands for a map of published cuts. -/
def ResidentRadix.Publishes (radix : ResidentRadix) (published : List (Option IdentityDigest × Cut)) : Prop :=
  radix.evictions ≤ usizeBound - 1 ∧ ∃ contents : Contents, radix.Represents contents ∧
    ∀ identity tokens cut, contents identity tokens = some cut → (identity, cut) ∈ published

theorem Contents.mem_of_foldl_erase {contents : Contents} {evicted : List (Option IdentityDigest × List Token)}
    {identity : Option IdentityDigest} {tokens : List Token} {cut : Cut}
    (held : evicted.foldl (fun contents key => contents.erase key.1 key.2) contents identity tokens = some cut) :
    contents identity tokens = some cut := by
  induction evicted generalizing contents with
  | nil => exact held
  | cons key evicted ih =>
    have erased := ih held
    simp only [Contents.erase] at erased
    split at erased
    · simp at erased
    · exact erased

namespace ResidentRadix.Publishes

variable {radix : ResidentRadix} {published : List (Option IdentityDigest × Cut)}

theorem insert (publishes : radix.Publishes published) (sha256 : Bytes → Bytes) (layout : ResidentRadix.Layout)
    (held : List ResidentSnapshot) (identity : Option IdentityDigest) (snapshot : SessionCacheSnapshot)
    (lastLogits : Option (List Logit)) :
    (radix.insertWithLogits sha256 layout held identity snapshot lastLogits).2.Publishes
      (recordPublished (radix.insertWithLogits sha256 layout held identity snapshot lastLogits).1
        identity ⟨snapshot, lastLogits⟩ published) := by
  obtain ⟨few, contents, represents, members⟩ := publishes
  by_cases admits : ResidentRadix.Admits snapshot lastLogits
  · obtain ⟨resident, accepted⟩ :=
      ResidentRadix.insertWithLogits_admitted sha256 layout held radix identity admits
    rw [accepted, recordPublished]
    obtain ⟨evicted, after, count, -⟩ :=
      ResidentRadix.insertWithLogits_spec sha256 layout held represents few identity admits
    refine ⟨by rw [count]; exact min_le_right _ _, _, after, fun identity' tokens cut stored => ?_⟩
    have inserted := Contents.mem_of_foldl_erase stored
    rw [Contents.insert] at inserted
    split at inserted
    · next same =>
      cases inserted
      rw [same.1]
      exact List.mem_cons_self
    · exact List.mem_cons_of_mem _ (members identity' tokens cut inserted)
  · obtain ⟨failure, refused⟩ := ResidentRadix.insertWithLogits_refused sha256 layout held radix identity admits
    rw [refused]
    exact ⟨few, contents, represents, members⟩

theorem lookupCapped (publishes : radix.Publishes published) (identity : Option IdentityDigest) (tokens : List Token)
    (maxCut : ℕ) : (radix.lookupCapped identity tokens maxCut).2.Publishes published := by
  obtain ⟨few, contents, represents, members⟩ := publishes
  exact ⟨few, contents, ResidentRadix.represents_lookupCapped represents identity tokens maxCut, members⟩

end ResidentRadix.Publishes

namespace PrefixReuse

/-- The cap of a lookup: the resolved cut, or nothing at all, or no cap without a durable tier. -/
def cap (reuse : PrefixReuse Failure) (authenticated : Option DurableHit) : ℕ :=
  reuse.durable.elim (usizeBound - 1) fun _ => authenticated.elim 0 DurableHit.cut

theorem lookupResident_eq (reuse : PrefixReuse Failure) (authenticated : Option DurableHit) (tokens : List Token) :
    reuse.lookupResident authenticated tokens =
      reuse.resident.lookupCapped reuse.residentIdentity tokens (reuse.cap authenticated) := by
  rw [lookupResident, cap]
  cases reuse.durable <;> rfl

/-- What planning does: it answers without a lookup, or answers from one. -/
theorem plan_cases (reuse : PrefixReuse Failure) (current tokens : List Token) :
    (current ≠ [] ∧ current <+: tokens ∧ reuse.plan current tokens = (.ok (.currentSession current.length), reuse)) ∨
    (∃ durable failure, reuse.durable = some durable ∧ durable.findDeepest tokens = .error failure ∧
      reuse.plan current tokens = (.error failure, reuse)) ∨
    ∃ authenticated found, (∀ durable, reuse.durable = some durable → durable.findDeepest tokens = .ok authenticated) ∧
      reuse.resident.lookupCapped reuse.residentIdentity tokens (reuse.cap authenticated) = found ∧
      (reuse.plan current tokens).2 = { reuse with resident := found.2 } ∧
      ((∃ hit, found.1 = some hit ∧ (hit.exact = true → hit.snapshot.lastLogits.isSome) ∧
          (reuse.plan current tokens).1 = .ok (.resident hit)) ∨
        (∃ hit, authenticated = some hit ∧ (reuse.plan current tokens).1 = .ok (.durable hit)) ∨
        (reuse.plan current tokens).1 = .ok .remoteOrMiss) := by
  rw [plan]
  split
  · next matches' =>
    refine Or.inl ?_
    simp only [Bool.and_eq_true, Bool.not_eq_true', decide_eq_true_eq, beq_iff_eq, List.isEmpty_eq_false_iff] at matches'
    exact ⟨matches'.1.1, List.prefix_iff_eq_take.mpr matches'.2.symm, rfl⟩
  · refine Or.inr ?_
    split
    · next failure failed =>
      refine Or.inl ?_
      cases durable : reuse.durable with
      | none => simp [durable] at failed
      | some durable' =>
        rw [durable] at failed
        exact ⟨durable', failure, rfl, failed, rfl⟩
    · next authenticated resolved =>
      refine Or.inr ⟨authenticated, _, ?_, (lookupResident_eq reuse authenticated tokens).symm, ?_⟩
      · intro durable same
        simpa [same] using resolved
      · dsimp only
        split
        · next hit served =>
          rw [Option.filter_eq_some_iff] at served
          refine ⟨rfl, Or.inl ⟨hit, served.1, fun isExact => ?_, rfl⟩⟩
          simpa [isExact] using served.2
        · cases authenticated with
          | none => exact ⟨rfl, Or.inr (Or.inr rfl)⟩
          | some hit => exact ⟨rfl, Or.inr (Or.inl ⟨hit, rfl, rfl⟩)⟩

end PrefixReuse

theorem Reached.publishes {sha256 : Bytes → Bytes} {capacity : ℕ} {reuse : PrefixReuse Failure}
    {published : List (Option IdentityDigest × Cut)} (reached : Reached sha256 capacity reuse published) :
    reuse.resident.Publishes published := by
  induction reached with
  | new fresh =>
    rw [PrefixReuse.new, bind_eq_ok_iff] at fresh
    obtain ⟨radix, new, same⟩ := fresh
    cases same
    refine ⟨?_, _, ResidentRadix.represents_new new, by simp⟩
    rw [ResidentRadix.new] at new
    split at new
    · simp at new
    · cases new
      exact Nat.zero_le _
  | setDurable reached durable ih => exact ih
  | publishResident reached layout held snapshot cachedLogits ih =>
    exact ih.insert sha256 layout held _ snapshot cachedLogits
  | residentInsert reached layout held identity snapshot lastLogits ih =>
    exact ih.insert sha256 layout held identity snapshot lastLogits
  | residentLookup reached identity tokens maxCut ih => exact ih.lookupCapped identity tokens maxCut
  | @plan reuse published reached current tokens ih =>
    rcases reuse.plan_cases current tokens with ⟨-, -, same⟩ | ⟨_, _, -, -, same⟩ | ⟨authenticated, found, -,
      lookup, same, -⟩
    · rw [same]
      exact ih
    · rw [same]
      exact ih
    · rw [same, ← lookup]
      exact ih.lookupCapped _ tokens _

/-- In every state of a ladder the plan stays inside the envelope: the session's own history is
served only as a prefix of the prompt; a resident hit was published under the current identity, is a
prefix of the prompt, stays within the cut the durable tier resolves, and has logits if it is exact;
and a failing durable tier fails the plan. -/
theorem reuse_plan_safe {sha256 : Bytes → Bytes} {capacity : ℕ} {reuse : PrefixReuse Failure}
    {published : List (Option IdentityDigest × Cut)} (reached : Reached sha256 capacity reuse published)
    (current tokens : List Token) :
    (∀ matched, (reuse.plan current tokens).1 = .ok (.currentSession matched) →
      current ≠ [] ∧ matched = current.length ∧ current <+: tokens) ∧
    (∀ hit, (reuse.plan current tokens).1 = .ok (.resident hit) →
      hit.snapshot.tokens <+: tokens ∧ hit.snapshot.tokens.length = hit.cut ∧
      (∃ cut, (reuse.durable.map DurableCache.identity, cut) ∈ published ∧ cut.snapshot.tokens = hit.snapshot.tokens ∧
        hit.snapshot.materialize = .ok cut.snapshot ∧ hit.snapshot.lastLogits = cut.lastLogits) ∧
      (∀ durable, reuse.durable = some durable →
        ∃ deepest, durable.findDeepest tokens = .ok (some deepest) ∧ hit.cut ≤ deepest.cut) ∧
      (hit.exact = true → hit.snapshot.lastLogits.isSome)) ∧
    ∀ durable failure, reuse.durable = some durable → durable.findDeepest tokens = .error failure →
      (reuse.plan current tokens).1 = .error failure ∨
        (reuse.plan current tokens).1 = .ok (.currentSession current.length) := by
  rcases reuse.plan_cases current tokens with
    ⟨nonempty, isPrefix, same⟩ | ⟨durable, failure, tier, failed, same⟩ |
      ⟨authenticated, found, resolved, lookup, -, answer⟩
  · rw [same]
    refine ⟨fun matched here => ?_, by simp, fun _ _ _ _ => Or.inr rfl⟩
    cases here
    exact ⟨nonempty, rfl, isPrefix⟩
  · rw [same]
    refine ⟨by simp, by simp, fun durable' failure' tier' failed' => Or.inl ?_⟩
    cases tier.symm.trans tier'
    cases failed.symm.trans failed'
    rfl
  · refine ⟨fun matched here => ?_, fun hit here => ?_, fun durable failure tier failed => ?_⟩
    · rcases answer with ⟨_, -, -, is⟩ | ⟨_, -, is⟩ | is <;> simp [is] at here
    · obtain ⟨hit', hits, logits, is⟩ | ⟨_, -, is⟩ | is := answer
      · cases here.symm.trans is
        obtain ⟨-, contents, represents, members⟩ := reached.publishes
        have answers := ResidentRadix.lookupCapped_answers represents reuse.residentIdentity tokens
          (reuse.cap authenticated)
        rw [lookup, hits] at answers
        obtain ⟨cut, ⟨short, capped, -, stored⟩, -, -, sameTokens, materialized, sameLogits⟩ := answers
        obtain ⟨valid, cutTokens⟩ := ResidentSnapshot.materialize_ok materialized
        obtain ⟨nonzero, position, -⟩ := SessionCacheSnapshot.validate_ok valid
        have length : hit.snapshot.tokens.length = hit.cut := by rw [sameTokens, List.length_take_of_le short]
        refine ⟨by rw [sameTokens]; exact List.take_prefix _ _, length, ?_, ?_, logits⟩
        · exact ⟨cut, members _ _ cut stored, cutTokens, materialized, sameLogits⟩
        · intro durable tier
          have positive : hit.cut ≠ 0 := by rwa [← length, ← cutTokens, position]
          cases authenticated with
          | none =>
            rw [PrefixReuse.cap, tier] at capped
            exact absurd (Nat.le_zero.mp capped) positive
          | some deepest =>
            rw [PrefixReuse.cap, tier] at capped
            exact ⟨deepest, resolved durable tier, capped⟩
      · simp [is] at here
      · simp [is] at here
    · simp [resolved durable tier] at failed

/-- A durable tier that resolves the first token of every prompt. -/
def oneTokenDurable : DurableCache String where
  identity := ⟨List.replicate 32 0, rfl⟩
  findDeepest _ := .ok (some ⟨1, List.replicate 32 0⟩)

def oneTokenLadder : PrefixReuse String :=
  ((⟨oneTokenRadix, none⟩ : PrefixReuse String).setDurable oneTokenDurable).publishResident sha256OfZeros
    ⟨id, Node.Reorders.refl⟩ [] oneTokenCut (some [0])

/-- The resident hit of an answer, where it is one. -/
def residentHit (answer : Except String ReusePlan) : Option ResidentHit :=
  match answer with
  | .ok (.resident hit) => some hit
  | _ => none

theorem residentHit_eq_some {answer : Except String ReusePlan} {hit : ResidentHit} (is : residentHit answer = some hit) :
    answer = .ok (.resident hit) := by
  unfold residentHit at is
  split at is
  · cases is
    rfl
  · cases is

theorem reuse_plan_safe_one_token : ∃ hit, (oneTokenLadder.plan [] [7]).1 = .ok (.resident hit) ∧ hit.cut ≤ 1 := by
  have fresh : Reached sha256OfZeros 1024 (⟨oneTokenRadix, none⟩ : PrefixReuse String) [] := .new rfl
  have reached := (fresh.setDurable oneTokenDurable).publishResident ⟨id, Node.Reorders.refl⟩ [] oneTokenCut (some [0])
  have served : (residentHit (oneTokenLadder.plan [] [7]).1).isSome = true := by decide +kernel
  obtain ⟨hit, found⟩ := Option.isSome_iff_exists.mp served
  have is := residentHit_eq_some found
  obtain ⟨deepest, resolved, within⟩ := ((reuse_plan_safe reached [] [7]).2.1 hit is).2.2.2.1 oneTokenDurable rfl
  cases resolved
  exact ⟨hit, is, within⟩

end Muser.Resident
