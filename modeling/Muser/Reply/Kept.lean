import Muser.Reply.Masked

/-! # What the stages keep

A stage keeps what is masked masked: each of its candidates is one of those before it, with a logit that is
masked where that was. And it keeps a candidate that is not masked, unless an exclusion with no threshold
drops all but the least; then only a temperature of zero could make a logit of what is masked.
-/

namespace Muser.Reply

variable {R : Type}

/-- Each candidate is one of those before it, and masked if that was. -/
def Follows (before after : List (Candidate R)) : Prop :=
  ∀ candidate ∈ after, ∃ earlier ∈ before, earlier.1 = candidate.1 ∧ (earlier.2 = ⊥ → candidate.2 = ⊥)

/-- The first candidate has the greatest logit, and is not masked. -/
def Led [LinearOrder R] (candidates : List (Candidate R)) : Prop :=
  ∃ first others, candidates = first :: others ∧ first.2 ≠ ⊥ ∧ ∀ candidate ∈ others, candidate.2 ≤ first.2

section Candidates

variable {before middle after candidates : List (Candidate R)}

theorem Follows.refl (candidates : List (Candidate R)) : Follows candidates candidates := fun candidate mem =>
    ⟨candidate, mem, rfl, id⟩

theorem Follows.trans (first : Follows before middle) (second : Follows middle after) : Follows before after := by
  intro candidate mem
  obtain ⟨between, mem, same, keeps⟩ := second candidate mem
  obtain ⟨earlier, mem, same', keeps'⟩ := first between mem
  exact ⟨earlier, mem, same'.trans same, keeps ∘ keeps'⟩

theorem follows_of_subset (subset : ∀ candidate ∈ after, candidate ∈ before) : Follows before after :=
  fun candidate mem => ⟨candidate, subset candidate mem, rfl, id⟩

theorem follows_map (change : Candidate R → Logit R)
    (keeps : ∀ candidate ∈ candidates, candidate.2 = ⊥ → change candidate = ⊥) :
    Follows candidates (candidates.map fun candidate => (candidate.1, change candidate)) := by
  intro candidate mem
  obtain ⟨earlier, inside, rfl⟩ := List.mem_map.mp mem
  exact ⟨earlier, inside, rfl, keeps earlier inside⟩

theorem Unmasked.of_follows (follows : Follows before after) (unmasked : Unmasked after) : Unmasked before := by
  obtain ⟨candidate, mem, some_⟩ := unmasked
  obtain ⟨earlier, mem, -, keeps⟩ := follows candidate mem
  exact ⟨earlier, mem, some_ ∘ keeps⟩

theorem unmasked_map {change : Candidate R → Logit R} (unmasked : Unmasked candidates)
    (keeps : ∀ candidate ∈ candidates, candidate.2 ≠ ⊥ → change candidate ≠ ⊥) :
    Unmasked (candidates.map fun candidate => (candidate.1, change candidate)) := by
  obtain ⟨candidate, mem, some_⟩ := unmasked
  exact ⟨_, List.mem_map_of_mem mem, keeps candidate mem some_⟩

theorem map_eq_bot {change : R → R} {logit : Logit R} : WithBot.map change logit = ⊥ ↔ logit = ⊥ := WithBot.map_eq_bot_iff

variable [LinearOrder R]

theorem unmasked_sort : Unmasked (sortSamplerCandidates candidates) ↔ Unmasked candidates :=
  exists_congr fun _ => and_congr_left fun _ => mem_sort

theorem Led.unmasked (led : Led candidates) : Unmasked candidates := by
  obtain ⟨first, others, rfl, some_, -⟩ := led
  exact ⟨first, List.mem_cons_self, some_⟩

theorem Led.take (led : Led candidates) {count : ℕ} (some_ : 0 < count) : Led (candidates.take count) := by
  obtain ⟨first, others, rfl, unmasked, most⟩ := led
  obtain ⟨count, rfl⟩ := Nat.exists_eq_succ_of_ne_zero some_.ne'
  exact ⟨first, others.take count, rfl, unmasked, fun candidate mem => most candidate (List.mem_of_mem_take mem)⟩

/-- A stage that keeps at least one candidate keeps the first. -/
theorem Led.take_max (led : Led candidates) (count : ℕ) : Led (candidates.take (max count 1)) :=
    led.take (Nat.lt_of_lt_of_le Nat.one_pos (le_max_right _ _))

/-- A part of sorted candidates that starts with one that is not masked. -/
theorem led_of_pairwise {first : Candidate R} {others : List (Candidate R)}
    (pairwise : (first :: others).Pairwise fun left right => right.2 ≤ left.2)
    (some_ : first.2 ≠ ⊥) : Led (first :: others) := ⟨first, others, rfl, some_, (List.pairwise_cons.mp pairwise).1⟩

theorem led_sort (unmasked : Unmasked candidates) : Led (sortSamplerCandidates candidates) := by
  have pairwise := sorted_pairwise candidates
  obtain ⟨candidate, mem, some_⟩ := unmasked_sort.mpr unmasked
  cases sorted : sortSamplerCandidates candidates with
  | nil =>
    rw [sorted] at mem
    cases mem
  | cons first others =>
    rw [sorted] at pairwise mem
    refine led_of_pairwise pairwise fun masked => some_ ?_
    rcases List.mem_cons.mp mem with rfl | mem
    · exact masked
    · exact le_bot_iff.mp (masked ▸ (List.pairwise_cons.mp pairwise).1 candidate mem)

/-- Logits that change in their order leave the first one the greatest. -/
theorem Led.map {change : Candidate R → Logit R} (led : Led candidates) (keeps : ∀ candidate ∈ candidates, candidate.2 ≠ ⊥ →
      (∀ other ∈ candidates, other.2 ≤ candidate.2) → change candidate ≠ ⊥ ∧ ∀ other ∈ candidates,
        change other ≤ change candidate) :
    Led (candidates.map fun candidate => (candidate.1, change candidate)) := by
  obtain ⟨first, others, rfl, some_, most⟩ := led
  obtain ⟨unmasked, greatest⟩ := keeps first List.mem_cons_self some_ (List.forall_mem_cons.mpr ⟨le_rfl, most⟩)
  refine ⟨_, _, List.map_cons .., unmasked, fun candidate mem => ?_⟩
  obtain ⟨other, inside, rfl⟩ := List.mem_map.mp mem
  exact greatest other (List.mem_cons_of_mem _ inside)

end Candidates

namespace Chain

variable [LinearOrder R] {chain chain' : Chain R}

/-- A candidate is not masked, and the first one has the greatest logit where the candidates are said to be sorted. -/
structure Live (chain : Chain R) : Prop where
  unmasked : Unmasked chain.candidates
  led : chain.sorted = true → Led chain.candidates

theorem Live.sortOnce (live : chain.Live) : Led chain.sortOnce.candidates := by
  rw [Chain.sortOnce]
  split
  · next sorted => exact live.led sorted
  · exact led_sort live.unmasked

theorem follows_sort : Follows chain.candidates chain.sort.candidates := follows_of_subset fun _ => mem_sort.mp

theorem follows_sortOnce : Follows chain.candidates chain.sortOnce.candidates := by
  rw [Chain.sortOnce]
  split
  · exact .refl _
  · exact follows_sort

variable [Field R] {elementary : Elementary R} {params : SamplingParams R} {request : SamplerRequest R}
  {tokenizer : Tokenizer} {history : List ℕ} {rng rng' : Rng R}

/-- A threshold so many deviations below a logit. -/
theorem threshold_le [IsStrictOrderedRing R] {sigma : R} (positive : 0 < sigma) (variance : R) (most : Logit R) :
    WithBot.map (· - sigma * elementary.sqrt variance) most ≤ most := by
  cases most with
  | none => exact le_rfl
  | some most => exact WithBot.coe_le_coe.mpr (sub_le_self most (mul_nonneg positive.le (elementary.sqrt_nonneg variance)))

/-- The greatest logit is not masked by a threshold below it. -/
theorem topNSigma_keeps [IsStrictOrderedRing R] : Follows chain.candidates (chain.topNSigma elementary params).candidates ∧
    (chain.Live → (chain.topNSigma elementary params).Live) := by
  rw [topNSigma]
  split
  · next used =>
    generalize hv : ((finite chain.candidates).map fun value =>
      (value - (finite chain.candidates).sum / (finite chain.candidates).length) ^ 2).sum /
      ((finite chain.candidates).length : R) = variance
    dsimp only
    rw [hv]
    have below := @threshold_le R _ _ elementary _ _ used.1 variance (maximum chain.candidates)
    generalize WithBot.map (· - params.topNSigma * elementary.sqrt variance) (maximum chain.candidates) = threshold at below
    have keeps : ∀ candidate : Candidate R, candidate.2 = maximum chain.candidates →
        (if candidate.2 < threshold then ⊥ else candidate.2) = candidate.2 :=
      fun candidate greatest => if_neg (not_lt.mpr (greatest ▸ below))
    have less : ∀ candidate : Candidate R, (if candidate.2 < threshold then ⊥ else candidate.2) ≤ candidate.2 := by
      intro candidate
      split
      · exact bot_le
      · exact le_rfl
    refine ⟨follows_map _ fun candidate _ masked => le_bot_iff.mp (masked ▸ less candidate),
      fun live => ⟨?_, fun sorted => ?_⟩⟩
    · obtain ⟨candidate, mem, greatest⟩ := live.unmasked.maximum_mem
      refine ⟨_, List.mem_map_of_mem mem, ?_⟩
      dsimp only
      rw [keeps candidate greatest, greatest]
      exact unmasked_iff.mp live.unmasked
    · refine (live.led sorted).map fun candidate mem some_ most => ?_
      obtain ⟨other, mem', greatest⟩ := live.unmasked.maximum_mem
      have same : candidate.2 = maximum chain.candidates := le_antisymm (le_maximum mem) (greatest ▸ most other mem')
      rw [keeps candidate same]
      exact ⟨some_, fun other mem => (less other).trans (most other mem)⟩
  · exact ⟨.refl _, id⟩

omit [Field R] in
theorem topK_keeps : Follows chain.candidates (chain.topK params).candidates ∧ (chain.Live → (chain.topK params).Live) := by
  rw [topK]
  split
  · next used =>
    refine ⟨follows_sort.trans (follows_of_subset fun _ => List.mem_of_mem_take), fun live => ?_⟩
    have led := (led_sort live.unmasked).take used
    exact ⟨led.unmasked, fun _ => led⟩
  · exact ⟨.refl _, id⟩

omit [LinearOrder R] in
theorem cutAt_eq_some {enough : R → Bool} {minKeep count keep : ℕ} {sum : R} {probabilities : List R}
    (is : cutAt enough minKeep count sum probabilities = some keep) :
    ∃ taken, keep = count + taken ∧ enough (sum + (probabilities.take taken).sum) = true := by
  induction probabilities generalizing count sum with
  | nil => cases is
  | cons probability others ih =>
    rw [cutAt] at is
    split at is
    · next both =>
      cases is
      rw [Bool.and_eq_true] at both
      refine ⟨1, rfl, ?_⟩
      rw [List.take_succ_cons, List.take_zero, List.sum_singleton]
      exact both.1
    · obtain ⟨taken, rfl, reached⟩ := ih is
      refine ⟨taken + 1, by omega, ?_⟩
      rwa [List.take_succ_cons, List.sum_cons, ← add_assoc]

/-- The candidates that are typical have more than no probability, so one of them is not masked. -/
theorem typP_live (positive : 0 ≤ params.typicalP) (is : chain.typP elementary params = .ok chain')
    (live : chain.Live) : chain'.Live := by
  rw [typP] at is
  split at is
  · obtain ⟨probabilities, found, made⟩ := bind_eq_ok_iff.mp is
    cases made
    obtain ⟨length, kept⟩ := softmax_eq_ok found
    have unmasked := live.sortOnce.unmasked
    generalize chain.sortOnce.candidates = candidates at length kept unmasked ⊢
    generalize typicalBefore elementary (entropy elementary probabilities) = before
    have perm := List.mergeSort_perm (candidates.zip probabilities) before
    refine ⟨?_, nofun⟩
    cases cut : cutAt (params.typicalP < ·) params.minKeep 0 0
      (((candidates.zip probabilities).mergeSort before).map (·.2)) with
    | none =>
      obtain ⟨candidate, mem, some_⟩ := unmasked
      rw [Option.getD_none, List.take_of_length_le (le_max_left _ _)]
      have firsts : (((candidates.zip probabilities).mergeSort before).map (·.1)).Perm candidates := by
        have all := perm.map Prod.fst
        rwa [List.map_fst_zip length.ge] at all
      exact ⟨candidate, firsts.mem_iff.mpr mem, some_⟩
    | some keep =>
      obtain ⟨taken, rfl, reached⟩ := cutAt_eq_some cut
      rw [zero_add, decide_eq_true_iff, ← List.map_take] at reached
      rw [Option.getD_some, Nat.zero_add]
      obtain ⟨probability, mem, some_⟩ := List.exists_mem_ne_zero_of_sum_ne_zero (positive.trans_lt reached).ne'
      obtain ⟨both, inside, rfl⟩ := List.mem_map.mp mem
      refine ⟨both.1, List.mem_map_of_mem (List.take_subset_take_left _ (le_max_left _ _) inside), kept both ?_ some_⟩
      exact perm.mem_iff.mp (List.mem_of_mem_take inside)
  · cases is
    exact live

theorem topP_live (is : chain.topP elementary params = .ok chain') (live : chain.Live) : chain'.Live := by
  rw [topP] at is
  split at is
  · obtain ⟨probabilities, found, made⟩ := bind_eq_ok_iff.mp is
    cases made
    exact ⟨(live.sortOnce.take_max _).unmasked, fun _ => live.sortOnce.take_max _⟩
  · cases is
    exact live

theorem minP_follows : Follows chain.candidates (chain.minP elementary params).candidates := by
  rw [minP]
  split
  · dsimp only
    split
    · exact follows_of_subset fun _ => List.mem_of_mem_filter
    · split
      · exact follows_of_subset fun _ => List.mem_of_mem_take
      · exact follows_sort.trans (follows_of_subset fun _ => List.mem_of_mem_take)
  · exact .refl _

theorem minP_live (live : chain.Live) : (chain.minP elementary params).Live := by
  rw [minP]
  split
  · dsimp only
    split
    · next unsorted =>
      obtain ⟨candidate, mem⟩ := List.exists_mem_of_ne_nil _ unsorted.2.1
      refine ⟨⟨candidate, mem, fun masked => ?_⟩, fun sorted => absurd sorted (by rw [unsorted.1]; exact Bool.false_ne_true)⟩
      have above := of_decide_eq_true (List.mem_filter.mp mem).2
      rw [masked, le_bot_iff, map_eq_bot] at above
      exact unmasked_iff.mp live.unmasked above
    · have led : Led (if chain.sorted then chain else chain.sort).candidates := by
        split
        · next sorted => exact live.led sorted
        · exact led_sort live.unmasked
      exact ⟨(led.take_max _).unmasked, fun _ => led.take_max _⟩
  · exact live

/-! ## No stage drops every candidate -/

theorem topNSigma_eq_nil : (chain.topNSigma elementary params).candidates = [] ↔ chain.candidates = [] := by
  rw [topNSigma]
  split
  · exact List.map_eq_nil_iff
  · exact Iff.rfl

omit [Field R] in
theorem sort_eq_nil : chain.sort.candidates = [] ↔ chain.candidates = [] := by
  rw [← List.length_eq_zero_iff, ← List.length_eq_zero_iff, Chain.sort, sortSamplerCandidates, List.length_mergeSort]

omit [Field R] in
theorem topK_eq_nil : (chain.topK params).candidates = [] ↔ chain.candidates = [] := by
  rw [topK]
  split
  · next used =>
    dsimp only
    rw [List.take_eq_nil_iff, sort_eq_nil, or_iff_right used.ne']
  · exact Iff.rfl

theorem minP_eq_nil : (chain.minP elementary params).candidates = [] ↔ chain.candidates = [] := by
  rw [minP]
  split
  · dsimp only
    split
    · next unsorted =>
      refine iff_of_false unsorted.2.1 fun none_ => unsorted.2.1 ?_
      rw [none_, List.filter_nil]
    · rw [List.take_eq_nil_iff, or_iff_right (Nat.lt_of_lt_of_le Nat.one_pos (le_max_right _ _)).ne']
      split
      · exact Iff.rfl
      · exact sort_eq_nil
  · exact Iff.rfl

end Chain

end Muser.Reply
