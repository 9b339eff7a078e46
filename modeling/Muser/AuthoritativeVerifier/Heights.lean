import Muser.AuthoritativeVerifier.Sample

/-! # Plain sums of the validators

Most sums of heights in the validators are checked. Those written with `+` panic when they leave the
range of their type; only the end of the fresh target rows can.
-/

namespace Muser.Verifier

/-- A computation of the source that answers, fails, or panics in a sum. -/
abbrev Panicking := ExceptT VerifierV2Error Option

/-- The source's `+` on a 64-bit word. -/
def plainSum (a b : ℕ) : Panicking ℕ := ExceptT.mk (if a + b < 2 ^ 64 then some (.ok (a + b)) else none)

/-- A part of a validator without such sums. -/
def checked {α : Type} (part : Result α) : Panicking α := ExceptT.mk (some part)

namespace RoundCoreV2

/-- The checks up to the height of a round, before its context is counted. -/
def validateGenerated (p : Primitives) (round : RoundCoreV2) (session : SessionCoreV2) : Result Unit := do
  reject (round.wrongAddress session) (invalid "round addresses the wrong session or lifetime")
  validateIdentifier "request id" round.requestId
  validateDigest "base head" round.baseHeadSha256
  validateDigest "base transcript" round.baseTokensSha256
  reject (round.badCandidates p session) (invalid "round transcript or candidate geometry differs")
  reject (round.baseOutputHeight < session.initialOutputHeight) (invalid "round output precedes genesis")

def plainContextInputs (round : RoundCoreV2) : Panicking ℕ :=
  match round.intent with
  | .verify => plainSum 1 round.draftTokens.length
  | .close _ => pure 0

def plainValidateHistorical (p : Primitives) (round : RoundCoreV2) (session : SessionCoreV2) : Panicking Unit := do
  checked (round.validateGenerated p session)
  let _ ← round.plainContextInputs
  checked do
    reject (round.badTranscript session (round.baseOutputHeight - session.initialOutputHeight).toNat)
      (invalid "round transcript length or context limit differs")
    round.validateFrontier session
    round.baseSamplerState.validateFor session.couplingPolicy
    round.postDraftSamplerState.validateFor session.couplingPolicy
    round.validateEvidence p session

end RoundCoreV2

def plainCoverageRange (result : ResultCoreV2) (request : RoundCoreV2) (coverage : FragmentCoverageV2) :
    Panicking (ℕ × ℕ) :=
  match request.intent, coverage with
  | .close _, _ => pure (request.baseOutputHeight.toNat, 0)
  | .verify, .committedInputs => pure (request.baseOutputHeight.toNat, result.committedTokens.length)
  | .verify, .freshTargetRows => do
    let start ← plainSum request.baseOutputHeight.toNat 1
    let count ← plainSum request.draftTokens.length 1
    pure (start, count)
  | .verify, .roundSingleton => pure (request.baseOutputHeight.toNat, 1)

/-- The rows of one component in the session's form, consecutive from `start`; answers their end. -/
def coverRows (requirement : FragmentRequirementV2) (start : ℕ) (rows : List FragmentDescriptorV2) : Result UInt64 := do
  reject (rows.any fun descriptor => descriptor.payloadAbi != requirement.payloadAbi ||
    descriptor.bytesPerLogicalRow != requirement.bytesPerLogicalRow)
    (invalid "fragment payload ABI differs from session")
  coverFrom (UInt64.ofNat start) rows

/-- The comparison of one component's rows with the range it must cover. -/
def plainLayout (requirement : FragmentRequirementV2) (rows : List FragmentDescriptorV2) (start count : ℕ) :
    Panicking Unit :=
  if rows.isEmpty then
    checked (reject (count != 0 && requirement.required) (invalid "required result component is absent"))
  else do
    let cursor ← checked (coverRows requirement start rows)
    let stop ← plainSum start count
    checked (reject (cursor.toNat != stop) (invalid "fragment logical coverage is incomplete"))

def plainValidateCoverage (result : ResultCoreV2) (request : RoundCoreV2) (requirement : FragmentRequirementV2) :
    Panicking Unit := do
  let (start, count) ← plainCoverageRange result request requirement.coverage
  plainLayout requirement (result.fragments.filter requirement.describes) start count

def plainClosureGeometry (result : ResultCoreV2) (request : RoundCoreV2) (session : SessionCoreV2) :
    Panicking Unit := do
  forM session.fragmentRequirements (plainValidateCoverage result request)
  checked (reject (result.fragments.any fun descriptor => !session.fragmentRequirements.any (·.describes descriptor))
    (invalid "result has an undeclared component"))

namespace AuthenticatedResultV2

/-- The checks of a result before its fragments are laid out. -/
def validateBeforeGeometry (p : Primitives) (result : AuthenticatedResultV2) (request : AuthenticatedRoundV2)
    (session : SessionCoreV2) : Result Unit := do
  let signature ← hexDecode result.targetSignatureHex 64
  reject (!p.ed25519Verify session.targetPublicKey.toList (canonical result.core) signature) .authentication
  let core := result.core
  core.decision.validateForIntent request.core.protocol request.core.intent request.core.baseSamplerState
    core.postVerifySamplerState
  verifyFrontier p core request session
  reject (!frontierFollows core session) (invalid "result terminal/frontier transition differs")
  core.postVerifySamplerState.validateFor session.couplingPolicy
  validateDigest "new transcript" core.newEvaluatedTokensSha256
  reject (tokenDigest p (request.core.baseEvaluatedTokens ++ core.committedTokens) != core.newEvaluatedTokensSha256)
    (invalid "result transcript commitment differs")
  validateDescriptors core.fragments session.maxTotalFragmentBytes

def validateCommitments (p : Primitives) (core : ResultCoreV2) : Result Unit := do
  reject (fragmentSetDigest p core.fragments != core.fragmentsSha256) (invalid "result fragment commitment differs")
  reject (core.newHeadSha256 != transitionHead p core) (invalid "result head transition differs")

/-- The count of accepted drafts is 32 bits wide, so only the layout of the fragments has sums to follow. -/
def plainVerifyAgainst (p : Primitives) (result : AuthenticatedResultV2) (request : AuthenticatedRoundV2)
    (session : SessionCoreV2) : Panicking Unit := do
  checked (result.validateBeforeGeometry p request session)
  plainClosureGeometry result.core request.core session
  checked (validateCommitments p result.core)

end AuthenticatedResultV2

section Sums

variable {α : Type}

theorem run_plainSum_bind (a b : ℕ) (next : ℕ → Panicking α) :
    (plainSum a b >>= next).run = if a + b < 2 ^ 64 then (next (a + b)).run else none := by
  rw [plainSum]
  split <;> rfl

@[simp] theorem run_checked (part : Result α) : (checked part).run = some part := rfl

theorem run_checked_bind {β : Type} (part : Result α) (next : α → Panicking β) :
    (checked part >>= next).run = match part with
      | .ok value => (next value).run
      | .error failure => some (.error failure) := by
  cases part <;> rfl

theorem run_checked_checked (first : Result Unit) (next : Result Unit) :
    (checked first >>= fun _ => checked next).run = some (first >>= fun _ => next) := by
  cases first <;> rfl

variable {rows : List FragmentDescriptorV2}

/-- Rows laid out from a start end past each of their counts. -/
theorem coverFrom_toNat {start cursor : UInt64} (covered : coverFrom start rows = .ok cursor) :
    cursor.toNat = start.toNat + (rows.map (·.logicalCount.toNat)).sum := by
  induction rows generalizing start with
  | nil =>
    cases covered
    simp
  | cons descriptor rest ih =>
    simp only [coverFrom, check_eq_ok_iff, reject_eq_ok_iff, decide_eq_false_iff_not, Nat.not_le] at covered
    obtain ⟨_, bounded, later⟩ := covered
    rw [ih later, UInt64.toNat_add, Nat.mod_eq_of_lt bounded, List.map_cons, List.sum_cons, Nat.add_assoc]

/-- The comparison of `plainLayout` with sums that wrap. -/
def layout (requirement : FragmentRequirementV2) (rows : List FragmentDescriptorV2) (start count : UInt64) :
    Result Unit :=
  if rows.isEmpty then
    reject (count != 0 && requirement.required) (invalid "required result component is absent")
  else do
    let cursor ← coverRows requirement start.toNat rows
    reject (cursor != start + count) (invalid "fragment logical coverage is incomplete")

theorem validateCoverage_eq (result : ResultCoreV2) (request : RoundCoreV2) (requirement : FragmentRequirementV2) :
    validateCoverage result request requirement = layout requirement (result.fragments.filter requirement.describes)
      (coverageRange result request requirement.coverage).1 (coverageRange result request requirement.coverage).2 := by
  simp only [validateCoverage, layout, coverRows, UInt64.ofNat_toNat, bind_assoc]

/-- Rows of one component fill a range that ends past the largest height. -/
def Exceeds (requirement : FragmentRequirementV2) (rows : List FragmentDescriptorV2) (start count : ℕ) : Prop :=
  rows ≠ [] ∧ (∃ cursor, coverRows requirement start rows = .ok cursor) ∧ 2 ^ 64 ≤ start + count

theorem plainLayout_of_exceeds {requirement : FragmentRequirementV2}
    {start count : ℕ} (exceeds : Exceeds requirement rows start count) :
    (plainLayout requirement rows start count).run = none := by
  obtain ⟨present, ⟨cursor, covered⟩, past⟩ := exceeds
  rw [plainLayout, if_neg (by simpa using present), run_checked_bind, covered]
  exact (run_plainSum_bind ..).trans (if_neg (Nat.not_lt.mpr past))

theorem plainLayout_of_fits {requirement : FragmentRequirementV2} {rows : List FragmentDescriptorV2}
    {start count : UInt64} (fits : ¬Exceeds requirement rows start.toNat count.toNat) :
    (plainLayout requirement rows start.toNat count.toNat).run = some (layout requirement rows start count) := by
  rw [plainLayout, layout]
  by_cases absent : rows.isEmpty = true
  · rw [if_pos absent, if_pos absent, run_checked]
    have zero : (count.toNat != 0) = (count != 0) := by
      rw [Bool.eq_iff_iff, bne_iff_ne, bne_iff_ne, Ne, Ne, ← UInt64.toNat_inj, UInt64.toNat_zero]
    rw [zero]
  · rw [if_neg absent, if_neg absent, run_checked_bind]
    cases covered : coverRows requirement start.toNat rows with
    | error failure => rfl
    | ok cursor =>
      have room : start.toNat + count.toNat < 2 ^ 64 :=
        Nat.not_le.mp fun past => fits ⟨by simpa using absent, ⟨cursor, covered⟩, past⟩
      have sum : (start + count).toNat = start.toNat + count.toNat := by
        rw [UInt64.toNat_add, Nat.mod_eq_of_lt room]
      have same : (cursor.toNat != start.toNat + count.toNat) = (cursor != start + count) := by
        rw [← sum, Bool.eq_iff_iff, bne_iff_ne, bne_iff_ne, Ne, Ne, UInt64.toNat_inj]
      exact (run_plainSum_bind ..).trans ((if_pos room).trans (by rw [run_checked, same]; rfl))

/-- A sum that wraps is below its start, and no rows end there. -/
theorem not_exceeds_of_layout {requirement : FragmentRequirementV2} {start count : UInt64}
    (accepted : layout requirement rows start count = .ok ()) : ¬Exceeds requirement rows start.toNat count.toNat := by
  rintro ⟨present, -, past⟩
  rw [layout, if_neg (by simpa using present), bind_eq_ok_iff] at accepted
  obtain ⟨cursor, covered, stops⟩ := accepted
  have stop : cursor = start + count := by simpa [reject_eq_ok_iff] using stops
  simp only [coverRows, check_eq_ok_iff, UInt64.ofNat_toNat] at covered
  have ended := coverFrom_toNat covered.2
  have small := count.toNat_lt
  have small' := start.toNat_lt
  rw [stop, UInt64.toNat_add] at ended
  omega

/-- A loop over `items` arrives at one that is `bad`, having accepted every item before it. -/
def Arrives (items : List α) (accepts : α → Result Unit) (bad : α → Prop) : Prop :=
  ∃ before item after, items = before ++ item :: after ∧ (∀ earlier ∈ before, accepts earlier = .ok ()) ∧ bad item

theorem arrives_cons {item : α} {items : List α} {accepts : α → Result Unit} {bad : α → Prop} :
    Arrives (item :: items) accepts bad ↔ bad item ∨ accepts item = .ok () ∧ Arrives items accepts bad := by
  constructor
  · rintro ⟨before, reached, after, split, accepted, fails⟩
    cases before with
    | nil =>
      cases split
      exact .inl fails
    | cons first before =>
      cases split
      exact .inr ⟨accepted _ List.mem_cons_self,
        before, reached, after, rfl, fun earlier member => accepted earlier (List.mem_cons_of_mem _ member), fails⟩
  · rintro (fails | ⟨first, before, reached, after, rfl, accepted, fails⟩)
    · exact ⟨[], item, items, rfl, by simp, fails⟩
    · exact ⟨item :: before, reached, after, rfl, List.forall_mem_cons.mpr ⟨first, accepted⟩, fails⟩

/-- A loop panics where it arrives at an item that does, and else answers as the loop without panics. -/
theorem run_forM {items : List α} {act : α → Panicking Unit} {accepts : α → Result Unit} {bad : α → Prop}
    (panics : ∀ item ∈ items, bad item → (act item).run = none)
    (answers : ∀ item ∈ items, ¬bad item → (act item).run = some (accepts item)) :
    (Arrives items accepts bad → (forM items act).run = none) ∧
      (¬Arrives items accepts bad → (forM items act).run = some (forM items accepts)) := by
  induction items with
  | nil =>
    refine ⟨?_, fun _ => rfl⟩
    rintro ⟨before, item, after, split, _⟩
    simp at split
  | cons item items ih =>
    obtain ⟨stops, passes⟩ := ih (fun other member => panics other (List.mem_cons_of_mem _ member))
      fun other member => answers other (List.mem_cons_of_mem _ member)
    rw [arrives_cons, List.forM_cons, List.forM_cons]
    by_cases fails : bad item
    · refine ⟨fun _ => ?_, fun not => absurd (.inl fails) not⟩
      rw [ExceptT.run_bind, panics item List.mem_cons_self fails]
      rfl
    · rw [ExceptT.run_bind, answers item List.mem_cons_self fails]
      cases accepted : accepts item with
      | error failure => exact ⟨by simp [fails], fun _ => rfl⟩
      | ok =>
        refine ⟨fun reached => stops ?_, fun not => passes fun reached => not (.inr ⟨rfl, reached⟩)⟩
        rcases reached with fails' | ⟨_, reached⟩
        · exact absurd fails' fails
        · exact reached

end Sums

/-- A verify round reaches a component of fresh target rows whose range ends past the largest height. -/
def FreshRowsExceed (result : ResultCoreV2) (request : RoundCoreV2) (requirement : FragmentRequirementV2) : Prop :=
  request.intent = .verify ∧ requirement.coverage = .freshTargetRows ∧
    (2 ^ 64 ≤ request.baseOutputHeight.toNat + 1 ∨ 2 ^ 64 ≤ request.draftTokens.length + 1 ∨
      Exceeds requirement (result.fragments.filter requirement.describes) (request.baseOutputHeight.toNat + 1)
        (request.draftTokens.length + 1))

theorem plainValidateCoverage_of_exceed {result : ResultCoreV2} {request : RoundCoreV2}
    {requirement : FragmentRequirementV2} (exceed : FreshRowsExceed result request requirement) :
    (plainValidateCoverage result request requirement).run = none := by
  obtain ⟨intent, coverage, past⟩ := exceed
  simp only [plainValidateCoverage, plainCoverageRange, intent, coverage, bind_assoc, pure_bind]
  rw [run_plainSum_bind]
  split
  · rw [run_plainSum_bind]
    split
    · rcases past with past | past | exceeds
      · omega
      · omega
      · exact plainLayout_of_exceeds exceeds
    · rfl
  · rfl

theorem not_exceeds_one {requirement : FragmentRequirementV2} {rows : List FragmentDescriptorV2} {start : UInt64}
    (counted : ∀ descriptor ∈ rows, descriptor.logicalCount ≠ 0) : ¬Exceeds requirement rows start.toNat 1 := by
  rintro ⟨present, ⟨cursor, covered⟩, past⟩
  simp only [coverRows, check_eq_ok_iff, UInt64.ofNat_toNat] at covered
  have ended := coverFrom_toNat covered.2
  have small := cursor.toNat_lt
  cases rows with
  | nil => exact present rfl
  | cons descriptor rest =>
    have positive : descriptor.logicalCount.toNat ≠ 0 := fun zero =>
      counted descriptor List.mem_cons_self (UInt64.toNat_inj.mp zero)
    rw [List.map_cons, List.sum_cons] at ended
    omega

theorem plainValidateCoverage_of_fits {result : ResultCoreV2} {request : RoundCoreV2}
    {requirement : FragmentRequirementV2} (fits : ¬FreshRowsExceed result request requirement)
    (committed : request.baseOutputHeight.toNat + result.committedTokens.length < 2 ^ 64)
    (counted : ∀ descriptor ∈ result.fragments, descriptor.logicalCount ≠ 0) :
    (plainValidateCoverage result request requirement).run = some (validateCoverage result request requirement) := by
  have room := request.baseOutputHeight.toNat_lt
  have within {count : UInt64} (small : request.baseOutputHeight.toNat + count.toNat < 2 ^ 64) :
      (plainLayout requirement (result.fragments.filter requirement.describes) request.baseOutputHeight.toNat
        count.toNat).run = some (layout requirement (result.fragments.filter requirement.describes)
        request.baseOutputHeight count) :=
    plainLayout_of_fits fun exceeds => absurd exceeds.2.2 (by omega)
  rw [validateCoverage_eq]
  cases intent : request.intent with
  | close reason =>
    simp only [plainValidateCoverage, plainCoverageRange, coverageRange, intent, pure_bind]
    exact @within 0 room
  | verify =>
    cases coverage : requirement.coverage with
    | committedInputs =>
      simp only [plainValidateCoverage, plainCoverageRange, coverageRange, intent, coverage, pure_bind]
      have word : (UInt64.ofNat result.committedTokens.length).toNat = result.committedTokens.length :=
        UInt64.toNat_ofNat_of_lt' (by rw [UInt64.size]; omega)
      rw [← word] at committed ⊢
      rw [UInt64.ofNat_toNat]
      exact within committed
    | freshTargetRows =>
      simp only [plainValidateCoverage, plainCoverageRange, coverageRange, intent, coverage, bind_assoc, pure_bind]
      have first : request.baseOutputHeight.toNat + 1 < 2 ^ 64 :=
        Nat.not_le.mp fun past => fits ⟨intent, coverage, .inl past⟩
      have second : request.draftTokens.length + 1 < 2 ^ 64 :=
        Nat.not_le.mp fun past => fits ⟨intent, coverage, .inr (.inl past)⟩
      have start : (request.baseOutputHeight + 1).toNat = request.baseOutputHeight.toNat + 1 := by
        rw [UInt64.toNat_add, UInt64.toNat_one, Nat.mod_eq_of_lt first]
      have count : (UInt64.ofNat request.draftTokens.length + 1).toNat = request.draftTokens.length + 1 := by
        rw [UInt64.toNat_add, UInt64.toNat_one, UInt64.toNat_ofNat_of_lt' (by rw [UInt64.size]; omega),
          Nat.mod_eq_of_lt second]
      rw [run_plainSum_bind, if_pos first, run_plainSum_bind, if_pos second, ← start, ← count]
      exact plainLayout_of_fits fun exceeds => fits ⟨intent, coverage, .inr (.inr (start ▸ count ▸ exceeds))⟩
    | roundSingleton =>
      simp only [plainValidateCoverage, plainCoverageRange, coverageRange, intent, coverage, pure_bind]
      exact @plainLayout_of_fits requirement _ request.baseOutputHeight 1
        (not_exceeds_one fun descriptor member => counted descriptor (List.mem_filter.mp member).1)

theorem validateDescriptors_counted {descriptors : List FragmentDescriptorV2} {sessionLimit : UInt64}
    (valid : validateDescriptors descriptors sessionLimit = .ok ()) :
    ∀ descriptor ∈ descriptors, descriptor.logicalCount ≠ 0 := by
  have loop (index total final : ℕ) (rest : List FragmentDescriptorV2)
      (accepted : validateDescriptorsFrom index total rest = .ok final) :
      ∀ descriptor ∈ rest, descriptor.logicalCount ≠ 0 := by
    induction rest generalizing index total with
    | nil => simp
    | cons descriptor rest ih =>
      simp only [validateDescriptorsFrom, validateDescriptor, check_eq_ok_iff, reject_eq_ok_iff, badDescriptor,
        Bool.or_eq_false_iff, beq_eq_false_iff_ne] at accepted
      exact List.forall_mem_cons.mpr ⟨accepted.1.2.2.2.1.1.1.1.2, ih _ _ accepted.2.2⟩
  simp only [validateDescriptors, bind_eq_ok_iff] at valid
  obtain ⟨_, _, total, accepted, _⟩ := valid
  exact loop 0 0 total descriptors accepted

open AuthenticatedResultV2

theorem verifyAgainst_eq (p : Primitives) (result : AuthenticatedResultV2) (request : AuthenticatedRoundV2)
    (session : SessionCoreV2) : result.verifyAgainst p request session = (do
      result.validateBeforeGeometry p request session
      validateClosureGeometry result.core request.core session
      validateCommitments p result.core) := by
  simp only [verifyAgainst, validateBeforeGeometry, validateCommitments, bind_assoc]

variable {session : SessionCoreV2} {p : Primitives}

theorem committed_fits {result : AuthenticatedResultV2} {request : AuthenticatedRoundV2}
    (accepted : result.validateBeforeGeometry p request session = .ok ()) :
    request.core.baseOutputHeight.toNat + result.core.committedTokens.length < 2 ^ 64 ∧
      ∀ descriptor ∈ result.core.fragments, descriptor.logicalCount ≠ 0 := by
  rw [validateBeforeGeometry, bind_eq_ok_iff] at accepted
  obtain ⟨_, _, accepted⟩ := accepted
  simp only [check_eq_ok_iff] at accepted
  obtain ⟨_, _, frontier, _, _, _, _, descriptors⟩ := accepted
  refine ⟨?_, validateDescriptors_counted descriptors⟩
  unfold verifyFrontier at frontier
  cases opened : request.core.frontierIn with
  | closed reason => simp [opened] at frontier
  | opened frontierIn outputOrdinal =>
    simp only [opened, bind_eq_ok_iff, reject_eq_ok_iff, decide_eq_false_iff_not, Nat.not_le] at frontier
    obtain ⟨_, _, count, _, _, room, matched⟩ := frontier
    simp only [mismatches, Bool.or_eq_false_iff, bne_eq_false_iff_eq] at matched
    rw [matched.1.1.1.2]
    exact room

/-- The layout of the fragments is reached, and in it a component of fresh rows that ends too far. -/
def ReachesExcess (p : Primitives) (result : AuthenticatedResultV2) (request : AuthenticatedRoundV2)
    (session : SessionCoreV2) : Prop :=
  result.validateBeforeGeometry p request session = .ok () ∧
    Arrives session.fragmentRequirements (validateCoverage result.core request.core)
      (FreshRowsExceed result.core request.core)

theorem plainVerifyAgainst_run {result : AuthenticatedResultV2} {request : AuthenticatedRoundV2} :
    (ReachesExcess p result request session → (result.plainVerifyAgainst p request session).run = none) ∧
      (¬ReachesExcess p result request session →
        (result.plainVerifyAgainst p request session).run = some (result.verifyAgainst p request session)) := by
  rw [plainVerifyAgainst, verifyAgainst_eq, run_checked_bind]
  cases before : result.validateBeforeGeometry p request session with
  | error failure => exact ⟨fun reached => by simp [ReachesExcess, before] at reached, fun _ => rfl⟩
  | ok =>
    obtain ⟨committed, counted⟩ := committed_fits before
    obtain ⟨stops, passes⟩ := @run_forM _ session.fragmentRequirements _ _ _
      (fun requirement _ => @plainValidateCoverage_of_exceed result.core request.core requirement)
      fun _ _ fits => plainValidateCoverage_of_fits fits committed counted
    simp only [plainClosureGeometry, validateClosureGeometry, bind_assoc]
    constructor
    · rintro ⟨_, reached⟩
      rw [ExceptT.run_bind, stops reached]
      rfl
    · intro not
      rw [ExceptT.run_bind, passes fun reached => not ⟨before, reached⟩]
      cases forM session.fragmentRequirements (validateCoverage result.core request.core) with
      | error failure => rfl
      | ok => exact run_checked_checked ..

theorem plainValidateHistorical_run (p : Primitives) (round : RoundCoreV2) (session : SessionCoreV2) :
    (round.plainValidateHistorical p session).run = some (round.validateHistorical p session) := by
  have split : round.validateHistorical p session = (do
      round.validateGenerated p session
      reject (round.badTranscript session (round.baseOutputHeight - session.initialOutputHeight).toNat)
        (invalid "round transcript length or context limit differs")
      round.validateFrontier session
      round.baseSamplerState.validateFor session.couplingPolicy
      round.postDraftSamplerState.validateFor session.couplingPolicy
      round.validateEvidence p session) := by
    simp only [RoundCoreV2.validateHistorical, RoundCoreV2.validateGenerated, bind_assoc]
  rw [split, RoundCoreV2.plainValidateHistorical, run_checked_bind]
  cases generated : round.validateGenerated p session with
  | error failure => rfl
  | ok =>
    simp only [RoundCoreV2.validateGenerated, check_eq_ok_iff, reject_eq_ok_iff, RoundCoreV2.badCandidates,
      Bool.or_eq_false_iff, decide_eq_false_iff_not, Nat.not_lt] at generated
    have few := generated.2.2.2.2.1.2
    have word := session.maxDrafts.toNat_lt
    unfold RoundCoreV2.plainContextInputs
    cases round.intent with
    | close reason => rfl
    | verify => exact (run_plainSum_bind ..).trans (if_pos (by omega))

/-- The validators of rounds and results stay in the range of their words, and answer as without
panics, except for a result whose layout reaches fresh target rows that end past the largest height.
No round of a session has such a result unless its heights can come that near. -/
theorem heights_in_range_iff (p : Primitives) (session : SessionCoreV2) :
    (∀ round : RoundCoreV2,
      (round.plainValidateHistorical p session).run = some (round.validateHistorical p session)) ∧
    (∀ request result, (plainVerifyAgainst p result request session).run =
      some (result.verifyAgainst p request session) ↔ ¬ReachesExcess p result request session) ∧
    ((∀ requirement ∈ session.fragmentRequirements, requirement.coverage = .freshTargetRows →
        session.initialOutputHeight.toNat + session.maxContextTokens.toNat + 1 <
          2 ^ 64 + session.initialEvaluatedTokens.length) →
      ∀ request result, request.core.validateHistorical p session = .ok () →
        (plainVerifyAgainst p result request session).run = some (result.verifyAgainst p request session)) := by
  have exact (request : AuthenticatedRoundV2) (result : AuthenticatedResultV2) :
      (plainVerifyAgainst p result request session).run = some (result.verifyAgainst p request session) ↔
        ¬ReachesExcess p result request session :=
    ⟨fun answers reached => by simp [plainVerifyAgainst_run.1 reached] at answers, plainVerifyAgainst_run.2⟩
  refine ⟨fun round => plainValidateHistorical_run p round session, exact, ?_⟩
  intro room request result accepted
  refine (exact request result).mpr ?_
  rintro ⟨_, before, requirement, after, split, _, intent, coverage, past⟩
  have near := room requirement (by rw [split]; simp) coverage
  have historical := RoundCoreV2.validateHistorical_historical accepted
  have context := historical.context
  have length := historical.length
  have height := UInt64.le_iff_toNat_le.mp historical.height
  rw [RoundCoreV2.contextInputs, intent] at context
  simp only at context
  rcases past with past | past | ⟨_, _, past⟩ <;> omega

open Sample

/-- A session that starts near the last height, with fresh target rows. -/
def lateCore : SessionCoreV2 :=
  let unsigned := {
    unsigned with
    initialOutputHeight := 0xfffffffffffffffd
    initialFrontier := .opened 3 0xfffffffffffffffd
    fragmentRequirements := [⟨"hidden", .targetHidden, .freshTargetRows, "rows", 2, true⟩] }
  { unsigned with genesisHeadSha256 := unsigned.genesisDigest primitives }

def lateRound : AuthenticatedRoundV2 where
  core := {
    roundCore "first" ⟨[1, 2], 0xfffffffffffffffd, lateCore.genesisHeadSha256, .opened 3 0xfffffffffffffffd,
      .stateless statelessSamplerV2⟩
    with sessionGenesisSha256 := lateCore.genesisHeadSha256 }
  hmacSha256 := zeroDigest

def lateResult : AuthenticatedResultV2 :=
  .sign ((unlinkedResult primitives lateRound lateCore (.opened 0 8) [3] 0xfffffffffffffffe lateRound.core.baseSamplerState
    [{ descriptor lateRound with logicalStart := 0xfffffffffffffffe }] 10).linked primitives) signer

set_option maxRecDepth 100000 in
private theorem heights_evaluated : (lateCore.validate primitives "key" 0 = .ok () ∧
    lateRound.core.validateHistorical primitives lateCore = .ok () ∧
    (lateResult.plainVerifyAgainst primitives lateRound lateCore).run = none) ∧
    request.core.validateHistorical primitives core = .ok () ∧ result.verifyAgainst primitives request core = .ok () := by
  decide +kernel

theorem fresh_rows_exceed : lateCore.validate primitives "key" 0 = .ok () ∧
    lateRound.core.validateHistorical primitives lateCore = .ok () ∧
    (lateResult.plainVerifyAgainst primitives lateRound lateCore).run = none :=
  heights_evaluated.1

/-- A result that is accepted for a round below the last height was accepted without a sum that wraps. -/
theorem accepted_in_range {request : AuthenticatedRoundV2}
    {result : AuthenticatedResultV2} (valid : request.core.validateHistorical p session = .ok ())
    (below : request.core.baseOutputHeight.toNat + 1 < 2 ^ 64) (accepted : result.verifyAgainst p request session = .ok ()) :
    (plainVerifyAgainst p result request session).run = some (.ok ()) := by
  rw [plainVerifyAgainst_run.2 ?_, accepted]
  rintro ⟨-, before, requirement, after, split, -, intent, coverage, past⟩
  have few := (RoundCoreV2.validateHistorical_historical valid).draftCount
  have word := session.maxDrafts.toNat_lt
  have count : (UInt64.ofNat request.core.draftTokens.length + 1).toNat = request.core.draftTokens.length + 1 := by
    rw [UInt64.toNat_add, UInt64.toNat_one, UInt64.toNat_ofNat_of_lt' (by rw [UInt64.size]; omega),
      Nat.mod_eq_of_lt (by omega)]
  have start : (request.core.baseOutputHeight + 1).toNat = request.core.baseOutputHeight.toNat + 1 := by
    rw [UInt64.toNat_add, UInt64.toNat_one, Nat.mod_eq_of_lt below]
  have laid : validateCoverage result.core request.core requirement = .ok () := by
    rw [verifyAgainst_eq] at accepted
    simp only [check_eq_ok_iff, validateClosureGeometry, forM_eq_ok_iff] at accepted
    exact accepted.2.1.1 requirement (by rw [split]; simp)
  simp only [validateCoverage_eq, coverageRange, intent, coverage] at laid
  rcases past with past | past | exceeds
  · omega
  · omega
  · exact not_exceeds_of_layout laid (by rw [start, count]; exact exceeds)

theorem accepted_in_range_first :
    (plainVerifyAgainst primitives result request core).run = some (.ok ()) :=
  accepted_in_range heights_evaluated.2.1 (by decide) heights_evaluated.2.2

end Muser.Verifier
