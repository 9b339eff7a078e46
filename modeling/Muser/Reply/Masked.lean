import Muser.Reply.Sampler

/-! # What is masked is not drawn

The weight of a masked logit is zero, so that a candidate with a probability is one whose logit is not masked.
-/

namespace Muser.Reply

variable {R : Type}

section Ordering

variable [LinearOrder R] {candidates : List (Candidate R)}

theorem foldl_max (candidates : List (Candidate R)) (start : Logit R) :
    start ≤ candidates.foldl (fun most candidate => max most candidate.2) start ∧
      (∀ candidate ∈ candidates, candidate.2 ≤ candidates.foldl (fun most candidate => max most candidate.2) start) ∧
      (candidates.foldl (fun most candidate => max most candidate.2) start = start ∨
        ∃ candidate ∈ candidates, candidate.2 = candidates.foldl (fun most candidate => max most candidate.2) start) := by
  induction candidates generalizing start with
  | nil => exact ⟨le_rfl, nofun, .inl rfl⟩
  | cons first others ih =>
    obtain ⟨least, each, is⟩ := ih (max start first.2)
    refine ⟨(le_max_left ..).trans least, List.forall_mem_cons.mpr ⟨(le_max_right ..).trans least, each⟩, ?_⟩
    rcases is with same | ⟨candidate, mem, same⟩
    · rcases max_choice start first.2 with left | right
      · exact .inl (same.trans left)
      · exact .inr ⟨first, List.mem_cons_self, (same.trans right).symm⟩
    · exact .inr ⟨candidate, List.mem_cons_of_mem _ mem, same⟩

theorem le_maximum {candidate : Candidate R} (mem : candidate ∈ candidates) : candidate.2 ≤ maximum candidates :=
  (foldl_max candidates ⊥).2.1 candidate mem

theorem maximum_eq_bot_iff : maximum candidates = ⊥ ↔ ∀ candidate ∈ candidates, candidate.2 = ⊥ := by
  constructor
  · intro is candidate mem
    exact le_bot_iff.mp (is ▸ le_maximum mem)
  · intro masked
    rcases (foldl_max candidates ⊥).2.2 with same | ⟨candidate, mem, same⟩
    · exact same
    · exact same.symm.trans (masked candidate mem)

/-- One of the candidates is not masked. -/
def Unmasked (candidates : List (Candidate R)) : Prop := ∃ candidate ∈ candidates, candidate.2 ≠ ⊥

theorem unmasked_iff : Unmasked candidates ↔ maximum candidates ≠ ⊥ := by
  rw [Ne, maximum_eq_bot_iff, Unmasked]
  push Not
  rfl

theorem Unmasked.maximum_mem (unmasked : Unmasked candidates) : ∃ candidate ∈ candidates,
    candidate.2 = maximum candidates := by
  rcases (foldl_max candidates ⊥).2.2 with same | found
  · exact absurd same (unmasked_iff.mp unmasked)
  · exact found

theorem argmax_eq (values : List (Logit R)) (count : ℕ) :
    let best := (List.range count).foldl (fun best index => if values.getD best ⊥ < values.getD index ⊥ then
      index else best) 0
    (best < count ∨ best = 0) ∧ ∀ index < count, values.getD index ⊥ ≤ values.getD best ⊥ := by
  induction count with
  | zero => exact ⟨.inr rfl, nofun⟩
  | succ count ih =>
    obtain ⟨within, most⟩ := ih
    rw [List.range_succ, List.foldl_append, List.foldl_cons, List.foldl_nil]
    generalize (List.range count).foldl (fun best index => if values.getD best ⊥ < values.getD index ⊥ then
      index else best) 0 = best at within most
    dsimp only
    split
    · next greater =>
      refine ⟨.inl (Nat.lt_succ_self _), fun index small => ?_⟩
      rcases Nat.lt_succ_iff_lt_or_eq.mp small with small | rfl
      · exact (most index small).trans greater.le
      · exact le_rfl
    · next no_greater =>
      refine ⟨within.imp Nat.lt_succ_of_lt id, fun index small => ?_⟩
      rcases Nat.lt_succ_iff_lt_or_eq.mp small with small | rfl
      · exact most index small
      · exact not_lt.mp no_greater

theorem argmax_lt {values : List (Logit R)} (some_ : values ≠ []) : argmax values < values.length := by
  have positive := List.length_pos_of_ne_nil some_
  rcases (argmax_eq values values.length).1 with within | zero
  · exact within
  · exact lt_of_eq_of_lt zero positive

theorem mem_sort {candidate : Candidate R} : candidate ∈ sortSamplerCandidates candidates ↔ candidate ∈ candidates :=
  (List.mergeSort_perm candidates descending).mem_iff

theorem descending_iff {left right : Candidate R} :
    descending left right = true ↔ right.2 < left.2 ∨ (left.2 = right.2 ∧ left.1 ≤ right.1) := by
  rw [descending, Bool.or_eq_true, Bool.and_eq_true, decide_eq_true_iff, decide_eq_true_iff, decide_eq_true_iff]

/-- In sorted candidates no logit is greater than one before it. -/
theorem sorted_pairwise (candidates : List (Candidate R)) :
    (sortSamplerCandidates candidates).Pairwise fun left right => right.2 ≤ left.2 := by
  have transitive : ∀ one two three : Candidate R, descending one two = true → descending two three = true →
      descending one three = true := by
    intro one two three first second
    rw [descending_iff] at first second ⊢
    rcases first with less | ⟨same, less⟩
    · rcases second with less' | ⟨same', -⟩
      · exact .inl (less'.trans less)
      · exact .inl (same' ▸ less)
    · rcases second with less' | ⟨same', less'⟩
      · exact .inl (same ▸ less')
      · exact .inr ⟨same.trans same', less.trans less'⟩
  have total : ∀ one two : Candidate R, (descending one two || descending two one) = true := by
    intro one two
    rw [Bool.or_eq_true, descending_iff, descending_iff]
    rcases lt_trichotomy one.2 two.2 with less | same | less
    · exact .inr (.inl less)
    · exact (le_total one.1 two.1).imp (fun less => .inr ⟨same, less⟩) fun less => .inr ⟨same.symm, less⟩
    · exact .inl (.inl less)
  refine (List.pairwise_mergeSort transitive total candidates).imp fun before => ?_
  rcases descending_iff.mp before with less | ⟨same, -⟩
  · exact less.le
  · exact same.ge

end Ordering

variable [Field R] [LinearOrder R] {elementary : Elementary R} {candidates : List (Candidate R)}

theorem expWeights_eq_some {weights : List R} (is : expWeights elementary candidates = some weights) :
    ∃ most : R, maximum candidates = most ∧ weights = candidates.map fun candidate =>
      weight elementary most candidate.2 := by
  rw [expWeights] at is
  split at is
  · cases is
  · next most same =>
    cases is
    exact ⟨most, same, rfl⟩

/-- The probabilities are those of the candidates, and only what is masked has none. -/
theorem softmax_eq_ok {probabilities : List R} (is : candidateSoftmax elementary candidates = .ok probabilities) :
    probabilities.length = candidates.length ∧ ∀ both ∈ candidates.zip probabilities, both.2 ≠ 0 → both.1.2 ≠ ⊥ := by
  rw [candidateSoftmax] at is
  split at is
  · cases is
  · next weights found =>
    obtain ⟨most, -, rfl⟩ := expWeights_eq_some found
    rw [normalizeProbabilities] at is
    split at is
    · cases is
    · cases is
      refine ⟨by rw [List.length_map, List.length_map], fun both mem some_ masked => some_ ?_⟩
      rw [List.map_map, ← List.map_prod_left_eq_zip, List.mem_map] at mem
      obtain ⟨candidate, -, rfl⟩ := mem
      rw [Function.comp_apply, masked]
      exact zero_div _

end Muser.Reply
