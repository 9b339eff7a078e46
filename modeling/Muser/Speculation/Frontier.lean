import Mathlib.Data.List.Basic

/-! # Rounds with a carried frontier

A round evaluates the frontier, which the target has selected and not yet evaluated, and a list of
drafts behind it. The inputs that the target would have selected are committed; the first sample that
differs from its draft, or the one behind the last draft, is the frontier of the next round.
-/

namespace Muser.Speculation

inductive SamplingError where
  | invalidParams
  | invalidLogits
  | invalidRngState
  | geometry
deriving DecidableEq

structure DrafterInvariantFrontierDecision where
  acceptedDrafts : ℕ
  commitInputCount : ℕ
  frontierOut : UInt32
deriving DecidableEq

/-- The comparison of the drafts with the samples behind them, from an index on. -/
def firstMismatch (index : ℕ) : List (UInt32 × UInt32) → Option DrafterInvariantFrontierDecision
  | [] => none
  | (draft, target) :: rest =>
    if draft ≠ target then
      some { acceptedDrafts := index, commitInputCount := index + 1, frontierOut := target }
    else firstMismatch (index + 1) rest

def verifyDrafterInvariantFrontier (frontierIn : UInt32) (draftTokens targetSamples : List UInt32) :
    Except SamplingError DrafterInvariantFrontierDecision :=
  if targetSamples.length ≠ draftTokens.length + 2 ∨ targetSamples.head? ≠ some frontierIn then .error .geometry
  else match firstMismatch 0 (draftTokens.zip targetSamples.tail) with
    | some decision => .ok decision
    | none =>
      match targetSamples.getLast? with
      | none => .error .geometry
      | some last =>
        .ok { acceptedDrafts := draftTokens.length, commitInputCount := draftTokens.length + 1, frontierOut := last }

/-- A target sampler: the token it selects after a history, at an absolute ordinal. -/
abbrev TargetSampler := List UInt32 → ℕ → UInt32

section Target

variable (sample : TargetSampler)

/-- What the target generates on its own. -/
def targetOnly (history : List UInt32) (ordinal : ℕ) : ℕ → List UInt32
  | 0 => []
  | count + 1 =>
    let token := sample history ordinal
    token :: targetOnly (history ++ [token]) (ordinal + 1) count

/-- The samples after each of the inputs. -/
def samplesAfter (history : List UInt32) (ordinal : ℕ) : List UInt32 → List UInt32
  | [] => []
  | input :: inputs => sample (history ++ [input]) (ordinal + 1) :: samplesAfter (history ++ [input]) (ordinal + 1) inputs

/-- The witness of the frontier, then the samples after the frontier and after each draft. -/
def roundSamples (history : List UInt32) (ordinal : ℕ) (frontier : UInt32) (drafts : List UInt32) : List UInt32 :=
  frontier :: samplesAfter sample history ordinal (frontier :: drafts)

structure Generation where
  history : List UInt32
  ordinal : ℕ
  frontier : UInt32
deriving DecidableEq

/-- Commit the first inputs of a round and carry its frontier; the answer is what was committed. -/
def Generation.round (generation : Generation) (drafts : List UInt32) : Except SamplingError (List UInt32 × Generation) :=
  match verifyDrafterInvariantFrontier generation.frontier drafts
      (roundSamples sample generation.history generation.ordinal generation.frontier drafts) with
  | .error error => .error error
  | .ok decision =>
    let committed := (generation.frontier :: drafts).take decision.commitInputCount
    .ok (committed, {
      history := generation.history ++ committed
      ordinal := generation.ordinal + committed.length
      frontier := decision.frontierOut })

/-- One round after the other; the answer is what each of them committed. -/
def Generation.rounds (generation : Generation) : List (List UInt32) → Except SamplingError (List (List UInt32) × Generation)
  | [] => .ok ([], generation)
  | drafts :: later =>
    match generation.round sample drafts with
    | .error error => .error error
    | .ok (committed, next) =>
      match next.rounds later with
      | .error error => .error error
      | .ok (blocks, last) => .ok (committed :: blocks, last)

/-- The frontier is the token that the target selects next. -/
def Generation.Ready (generation : Generation) : Prop := generation.frontier = sample generation.history generation.ordinal

end Target

section Stream

variable {sample : TargetSampler} {history : List UInt32} {ordinal : ℕ}

@[simp] theorem length_targetOnly (count : ℕ) : (targetOnly sample history ordinal count).length = count := by
  induction count generalizing history ordinal with
  | zero => rfl
  | succ count ih => rw [targetOnly, List.length_cons, ih]

theorem targetOnly_add (count more : ℕ) : targetOnly sample history ordinal (count + more) =
    targetOnly sample history ordinal count ++
      targetOnly sample (history ++ targetOnly sample history ordinal count) (ordinal + count) more := by
  induction count generalizing history ordinal with
  | zero => rw [Nat.zero_add, targetOnly, List.append_nil, List.nil_append, Nat.add_zero]
  | succ count ih =>
    have shift : ordinal + (count + 1) = ordinal + 1 + count := by omega
    rw [Nat.succ_add_eq_add_succ, Nat.add_succ, targetOnly, ih, targetOnly, shift, List.append_assoc,
      List.cons_append, List.cons_append, List.nil_append]

@[simp] theorem length_samplesAfter (inputs : List UInt32) :
    (samplesAfter sample history ordinal inputs).length = inputs.length := by
  induction inputs generalizing history ordinal with
  | nil => rfl
  | cons input inputs ih => rw [samplesAfter, List.length_cons, ih, List.length_cons]

/-- What a decision says of the inputs behind a frontier that the target selected: the target selects the committed ones
and then the carried frontier. -/
def Follows (sample : TargetSampler) (history : List UInt32) (ordinal : ℕ) (inputs : List UInt32)
    (count : ℕ) (frontierOut : UInt32) : Prop :=
  1 ≤ count ∧ inputs.take count = targetOnly sample history ordinal count ∧
    frontierOut = sample (history ++ inputs.take count) (ordinal + count)

/-- The scan, from a frontier that the target selected: at the first mismatch, or behind the last draft. -/
theorem firstMismatch_follows (index : ℕ) (frontier : UInt32) (drafts : List UInt32)
    (ready : frontier = sample history ordinal) :
    match firstMismatch index (drafts.zip (samplesAfter sample history ordinal (frontier :: drafts))) with
    | some decision => index + 1 ≤ decision.commitInputCount ∧
        Follows sample history ordinal (frontier :: drafts) (decision.commitInputCount - index) decision.frontierOut
    | none => ∃ last, (samplesAfter sample history ordinal (frontier :: drafts)).getLast? = some last ∧
        Follows sample history ordinal (frontier :: drafts) (drafts.length + 1) last := by
  induction drafts generalizing index history ordinal frontier with
  | nil =>
    refine ⟨sample (history ++ [frontier]) (ordinal + 1), rfl, Nat.le_refl _, ?_, rfl⟩
    rw [List.length_nil, List.take_succ_cons, List.take_zero, targetOnly, targetOnly, ready]
  | cons draft drafts ih =>
    rw [samplesAfter, List.zip_cons_cons, firstMismatch]
    by_cases same : draft = sample (history ++ [frontier]) (ordinal + 1)
    · rw [if_neg (not_not.mpr same)]
      have scan := ih (index + 1) draft same
      -- the block behind the frontier follows, so the block with it does
      have behind {count : ℕ} {out : UInt32}
          (follows : Follows sample (history ++ [frontier]) (ordinal + 1) (draft :: drafts) count out) :
          Follows sample history ordinal (frontier :: draft :: drafts) (count + 1) out := by
        obtain ⟨_, block, out⟩ := follows
        refine ⟨Nat.le_add_left .., ?_, ?_⟩
        · rw [List.take_succ_cons, block, targetOnly, ← ready]
        · rw [List.take_succ_cons, out, List.append_assoc, List.singleton_append, Nat.add_assoc, Nat.add_comm 1 count]
      cases found : firstMismatch (index + 1)
          (drafts.zip (samplesAfter sample (history ++ [frontier]) (ordinal + 1) (draft :: drafts))) with
      | some decision =>
        rw [found] at scan
        obtain ⟨later, follows⟩ := scan
        refine ⟨Nat.le_of_succ_le later, ?_⟩
        have count : decision.commitInputCount - index = decision.commitInputCount - (index + 1) + 1 := by omega
        rw [count]
        exact behind follows
      | none =>
        rw [found] at scan
        obtain ⟨last, ends, follows⟩ := scan
        refine ⟨last, ?_, behind follows⟩
        rw [samplesAfter, List.getLast?_cons_cons]
        exact ends
    · rw [if_pos same]
      have one : index + 1 - index = 1 := by omega
      refine ⟨Nat.le_refl _, ?_⟩
      rw [one]
      refine ⟨Nat.le_refl _, ?_, rfl⟩
      rw [List.take_succ_cons, List.take_zero, targetOnly, targetOnly, ready]

/-- A round is decided, and what it commits is what the target generates. -/
theorem verify_follows (frontier : UInt32) (drafts : List UInt32) (ready : frontier = sample history ordinal) :
    ∃ decision, verifyDrafterInvariantFrontier frontier drafts (roundSamples sample history ordinal frontier drafts) =
      .ok decision ∧
      Follows sample history ordinal (frontier :: drafts) decision.commitInputCount decision.frontierOut := by
  have geometry : ¬((roundSamples sample history ordinal frontier drafts).length ≠ drafts.length + 2 ∨
      (roundSamples sample history ordinal frontier drafts).head? ≠ some frontier) := by
    rw [roundSamples, List.length_cons, length_samplesAfter, List.length_cons, List.head?_cons]
    exact not_or.mpr ⟨not_not.mpr rfl, not_not.mpr rfl⟩
  have scan := firstMismatch_follows 0 frontier drafts ready
  rw [verifyDrafterInvariantFrontier, if_neg geometry, roundSamples, List.tail_cons]
  cases found : firstMismatch 0 (drafts.zip (samplesAfter sample history ordinal (frontier :: drafts))) with
  | some decision =>
    rw [found] at scan
    exact ⟨decision, rfl, scan.2⟩
  | none =>
    rw [found] at scan
    obtain ⟨last, ends, follows⟩ := scan
    have is : (frontier :: samplesAfter sample history ordinal (frontier :: drafts)).getLast? = some last := by
      rw [samplesAfter, List.getLast?_cons_cons]
      exact ends
    dsimp only
    rw [is]
    exact ⟨_, rfl, follows⟩

/-- No input that the target selects is behind the first mismatch. -/
theorem firstMismatch_longest {index count : ℕ} {frontier : UInt32} {drafts : List UInt32}
    {decision : DrafterInvariantFrontierDecision}
    (ready : frontier = sample history ordinal)
    (agrees : (frontier :: drafts).take count = targetOnly sample history ordinal count)
    (found : firstMismatch index (drafts.zip (samplesAfter sample history ordinal (frontier :: drafts))) = some decision) :
    index + count ≤ decision.commitInputCount := by
  induction drafts generalizing index history ordinal frontier count with
  | nil => cases found
  | cons draft drafts ih =>
    rw [samplesAfter, List.zip_cons_cons, firstMismatch] at found
    have behind {later : ℕ} (is : (frontier :: draft :: drafts).take (later + 1) =
      targetOnly sample history ordinal (later + 1)) :
        (draft :: drafts).take later = targetOnly sample (history ++ [frontier]) (ordinal + 1) later := by
      rw [List.take_succ_cons, targetOnly, ← ready] at is
      exact (List.cons.inj is).2
    by_cases same : draft = sample (history ++ [frontier]) (ordinal + 1)
    · rw [if_neg (not_not.mpr same)] at found
      cases count with
      | zero =>
        have step : index + 1 + 0 ≤ decision.commitInputCount := ih same rfl found
        omega
      | succ count =>
        have step := ih same (behind agrees) found
        omega
    · rw [if_pos same] at found
      cases found
      rcases count with _ | _ | later
      · exact Nat.le_succ index
      · exact Nat.le_refl _
      · have first := behind agrees
        rw [List.take_succ_cons, targetOnly] at first
        exact absurd (List.cons.inj first).1 same

end Stream

section Rounds

variable {sample : TargetSampler}

/-- A round from a ready generation commits at least one token of the target's stream and leaves a ready one. -/
theorem Generation.round_follows (generation : Generation) (drafts : List UInt32) (ready : generation.Ready sample) :
    ∃ committed next, generation.round sample drafts = .ok (committed, next) ∧ 1 ≤ committed.length ∧
      committed = targetOnly sample generation.history generation.ordinal committed.length ∧
      next.history = generation.history ++ committed ∧ next.ordinal = generation.ordinal + committed.length ∧
      next.Ready sample := by
  obtain ⟨decision, decided, positive, block, out⟩ := verify_follows generation.frontier drafts ready
  have count : ((generation.frontier :: drafts).take decision.commitInputCount).length = decision.commitInputCount := by
    rw [block, length_targetOnly]
  refine ⟨_, _, by rw [Generation.round, decided], ?_, ?_, rfl, rfl, ?_⟩
  · rw [count]
    exact positive
  · rw [count]
    exact block
  · rw [Generation.Ready, count]
    exact out

/-- Whatever is drafted, the rounds commit the target's stream, and each of them commits some of it. -/
theorem rounds_commit_targetOnly (prompt : List UInt32) (ordinal : ℕ) (rounds : List (List UInt32)) :
    ∃ blocks next, (Generation.rounds sample ⟨prompt, ordinal, sample prompt ordinal⟩ rounds) = .ok (blocks, next) ∧
      blocks.length = rounds.length ∧ (∀ block ∈ blocks, 1 ≤ block.length) ∧
      blocks.flatten = targetOnly sample prompt ordinal blocks.flatten.length ∧
      next = ⟨prompt ++ blocks.flatten, ordinal + blocks.flatten.length,
        sample (prompt ++ blocks.flatten) (ordinal + blocks.flatten.length)⟩ := by
  induction rounds generalizing prompt ordinal with
  | nil =>
    refine ⟨[], _, rfl, rfl, fun _ member => absurd member List.not_mem_nil, rfl, ?_⟩
    rw [List.flatten_nil, List.append_nil, List.length_nil, Nat.add_zero]
  | cons drafts later ih =>
    obtain ⟨committed, next, decided, positive, block, history, ordinal', ready⟩ :=
      @Generation.round_follows sample ⟨prompt, ordinal, sample prompt ordinal⟩ drafts rfl
    have next_eq : next = ⟨prompt ++ committed, ordinal + committed.length,
        sample (prompt ++ committed) (ordinal + committed.length)⟩ := by
      obtain ⟨past, place, frontier⟩ := next
      obtain rfl : past = prompt ++ committed := history
      obtain rfl : place = ordinal + committed.length := ordinal'
      exact congrArg _ ready
    obtain ⟨blocks, last, ran, each, some_, stream, is⟩ := ih (prompt ++ committed) (ordinal + committed.length)
    refine ⟨committed :: blocks, last, ?_, ?_, ?_, ?_, ?_⟩
    · rw [Generation.rounds, decided]
      dsimp only
      rw [next_eq, ran]
    · rw [List.length_cons, List.length_cons, each]
    · intro other member
      rcases List.mem_cons.mp member with rfl | member
      · exact positive
      · exact some_ other member
    · have head : targetOnly sample prompt ordinal committed.length = committed := block.symm
      rw [List.flatten_cons, List.length_append, targetOnly_add, head, ← stream]
    · rw [is, List.flatten_cons, List.length_append, List.append_assoc, Nat.add_assoc]

/-- A round commits tokens of the target's stream, and all of its inputs that are, up to the first other one. -/
theorem Generation.round_commits_longest {generation : Generation} {drafts : List UInt32} (ready : generation.Ready sample)
    {count : ℕ} (fits : count ≤ drafts.length + 1)
    (agrees : (generation.frontier :: drafts).take count = targetOnly sample generation.history generation.ordinal count) :
    ∃ committed next, generation.round sample drafts = .ok (committed, next) ∧ count ≤ committed.length ∧
      committed = targetOnly sample generation.history generation.ordinal committed.length := by
  obtain ⟨committed, next, ran, -, stream, -⟩ := generation.round_follows drafts ready
  refine ⟨committed, next, ran, ?_, stream⟩
  obtain ⟨decision, decided, -⟩ := verify_follows generation.frontier drafts ready
  rw [Generation.round, decided] at ran
  cases ran
  rw [List.length_take, List.length_cons]
  refine Nat.le_min.mpr ⟨?_, fits⟩
  rw [verifyDrafterInvariantFrontier] at decided
  split at decided
  · cases decided
  · split at decided
    · next found =>
      cases decided
      exact Nat.zero_add count ▸ firstMismatch_longest ready agrees found
    · split at decided
      · cases decided
      · cases decided
        exact fits

theorem round_commits_longest_counting : ∃ committed next,
    Generation.round (fun _ ordinal => UInt32.ofNat ordinal) ⟨[], 3, 3⟩ [4, 9] = .ok (committed, next) ∧
      2 ≤ committed.length ∧
      committed = targetOnly (fun _ ordinal => UInt32.ofNat ordinal) [] 3 committed.length :=
  @Generation.round_commits_longest (fun _ ordinal => UInt32.ofNat ordinal) ⟨[], 3, 3⟩ [4, 9] rfl 2 (by decide) (by decide)

end Rounds

end Muser.Speculation
