import Mathlib.Algebra.Order.BigOperators.Group.List
import Mathlib.Algebra.Order.Ring.Rat
import Muser.Reply.Dry
import Muser.Reply.Kept

/-! # The two sampler chains

The engine has a chain of its own for the speculative route: the default stages without those that a request
adds. It makes the same choices as the chain of the server with neutral settings, and only refuses logits that
are all masked at the start, where the server's chain finds that out later or not at all.
-/

namespace Muser.Reply

inductive SamplingError
  | invalidParams
  | invalidLogits
deriving DecidableEq

/-- Why there is no distribution: an error, or weights that are no numbers. -/
inductive Unsampled
  | error (error : SamplingError)
  | notNumbers
deriving DecidableEq

/-- A distribution over the vocabulary, and the order in which its candidates are drawn from. -/
structure OrderedDistribution (R : Type) where
  probabilities : List R
  weights : List R
  order : List ℕ

namespace Distribution

variable {R : Type} [Field R] [LinearOrder R] (elementary : Elementary R) (params : SamplingParams R)

/-- The probabilities of candidates; where all are masked their sum is no number. -/
def unitTemperatureProbabilities (ranked : List (Candidate R)) : Except SamplingError (List R) :=
  match expWeights elementary ranked with
  | none => .error .invalidLogits
  | some weights => if weights.sum ≤ 0 then .error .invalidLogits else .ok (weights.map (· / weights.sum))

/-- Unlike the server's stage this one also looks at a single candidate. -/
def topNSigma (chain : Chain R) : Chain R :=
  if 0 < params.topNSigma then
    let values := Chain.finite chain.candidates
    let mean : R := values.sum / values.length
    let variance : R := (values.map fun value => (value - mean) ^ 2).sum / values.length
    let threshold := (maximum chain.candidates).map (· - params.topNSigma * elementary.sqrt variance)
    chain.reweigh fun candidate => if candidate.2 < threshold then ⊥ else candidate.2
  else chain

def typical (chain : Chain R) : Except SamplingError (Chain R) :=
  if params.typicalP < 1 then do
    let chain := chain.sortOnce
    let probabilities ← unitTemperatureProbabilities elementary chain.candidates
    let typical := (chain.candidates.zip probabilities).mergeSort
      (Chain.typicalBefore elementary (Chain.entropy elementary probabilities))
    let keep := (Chain.cutAt (params.typicalP < ·) params.minKeep 0 0 (typical.map (·.2))).getD typical.length
    .ok { chain with candidates := (typical.take (max keep 1)).map (·.1), sorted := false }
  else .ok chain

/-- Candidates that are not sorted have their probabilities taken twice: before they are sorted by their logits, and
after. -/
def topP (chain : Chain R) : Except SamplingError (Chain R) :=
  if params.topP < 1 then do
    let probabilities ← unitTemperatureProbabilities elementary chain.candidates
    let candidates := if chain.sorted then chain.candidates
      else ((chain.candidates.zip probabilities).mergeSort fun left right => descending left.1 right.1).map (·.1)
    let probabilities ← unitTemperatureProbabilities elementary candidates
    let cutoff := (Chain.cutAt (params.topP ≤ ·) params.minKeep 0 0 probabilities).getD candidates.length
    .ok { chain with candidates := candidates.take (max cutoff 1), sorted := true }
  else .ok chain

/-- The logits divided by the temperature, or all but the first greatest of them masked. -/
def scale (temperature : R) (candidates : List (Candidate R)) : List (Candidate R) :=
  if temperature ≤ 0 then
    let greatest := argmax (candidates.map (·.2))
    candidates.mapIdx fun index candidate => (candidate.1, if index = greatest then (0 : R) else ⊥)
  else candidates.map fun candidate => (candidate.1, candidate.2.map (· / temperature))

/-- The candidates before they are scaled. -/
def chosen (logits : List (Logit R)) : Except SamplingError (Chain R) := do
  let chain := (topNSigma elementary params ⟨candidatesOf logits, false, false⟩).topK params
  let chain ← typical elementary params chain
  let chain ← topP elementary params chain
  .ok (chain.minP elementary params)

def distributionOrdered (logits : List (Logit R)) : Except Unsampled (OrderedDistribution R) := do
  params.validate.mapError fun _ => .error .invalidParams
  if logits = [] ∨ ∀ logit ∈ logits, logit = ⊥ then .error (.error .invalidLogits)
  let chain ← (chosen elementary params logits).mapError .error
  if chain.candidates = [] then .error (.error .invalidLogits)
  let scaled := scale params.temperature chain.candidates
  match expWeights elementary scaled with
  | none => .error .notNumbers
  | some weights =>
    .ok { probabilities := scatter logits.length scaled (weights.map (· / weights.sum))
          weights := scatter logits.length scaled weights
          order := scaled.map (·.1) }

end Distribution

/-! ## The server's chain before its draw -/

section Server

variable {R : Type} [Field R] [LinearOrder R] (elementary : Elementary R) (params : SamplingParams R)
  (request : SamplerRequest R)

/-- The candidates that the server draws from, with their weights in the vocabulary. -/
def beforeDraw (tokenizer : Tokenizer) (logits : List (Logit R)) (history : List ℕ) (rng : Rng R) :
    Except ChatError (Chain R × List R × Rng R) := do
  let (chain, rng) ← Chain.run elementary params request tokenizer history ⟨candidatesOf logits, false, false⟩ rng
  if chain.candidates = [] then .error (.engine "sampler chain removed every candidate")
  else do
    let weights ← samplerWeights elementary chain.candidates
    .ok (chain, scatter logits.length chain.candidates weights, rng)

end Server

/-! ## The stages agree -/

theorem toOption_bind {ε α β : Type} (first : Except ε α) (next : α → Except ε β) :
    (first >>= next).toOption = first.toOption.bind fun value => (next value).toOption := by
  cases first <;> rfl

theorem toOption_ok {ε α : Type} (value : α) : (Except.ok value : Except ε α).toOption = some value := rfl

theorem toOption_map {ε α β : Type} (change : α → β) (first : Except ε α) :
    (first.map change).toOption = first.toOption.map change := by
  cases first <;> rfl

theorem toOption_mapError {ε ε' α : Type} (change : ε → ε') (first : Except ε α) :
    (first.mapError change).toOption = first.toOption := by
  cases first <;> rfl

section Stages

variable {R : Type}

theorem unmasked_candidatesOf {logits : List (Logit R)} : Unmasked (candidatesOf logits) ↔ ∃ logit ∈ logits, logit ≠ ⊥ := by
  have logits_ : (candidatesOf logits).map (·.2) = logits := by
    rw [candidatesOf, List.map_map]
    exact List.zipIdx_map_fst 0 logits
  conv_rhs => rw [← logits_]
  simp only [List.mem_map, exists_exists_and_eq_and, Unmasked]

/-- A change that leaves every logit alone. -/
theorem reweigh_eq {chain : Chain R} {change : Candidate R → Logit R}
    (same : ∀ candidate ∈ chain.candidates, change candidate = candidate.2) :
    chain.reweigh change = chain := by
  have candidates : (chain.candidates.map fun candidate => (candidate.1, change candidate)) = chain.candidates := by
    conv_rhs => rw [← List.map_id chain.candidates]
    exact List.map_congr_left fun candidate mem => Prod.ext rfl (same candidate mem)
  rw [Chain.reweigh, candidates]

variable [LinearOrder R]

/-- What is sorted beside its probabilities is sorted. -/
theorem sort_zip {candidates : List (Candidate R)} {probabilities : List R}
    (length : probabilities.length = candidates.length) :
    ((candidates.zip probabilities).mergeSort fun left right => descending left.1 right.1).map (·.1) =
      sortSamplerCandidates candidates := by
  have sorted := @List.map_mergeSort _ _ (fun left right => descending left.1 right.1) descending Prod.fst
    (candidates.zip probabilities)
    fun _ _ _ _ => rfl
  rwa [List.map_fst_zip length.ge] at sorted

variable [Field R] {elementary : Elementary R} {params : SamplingParams R} {request : SamplerRequest R}

open Muser.Reply.Distribution

theorem softmax_agrees (candidates : List (Candidate R)) :
    (unitTemperatureProbabilities elementary candidates).toOption = (candidateSoftmax elementary candidates).toOption := by
  rw [unitTemperatureProbabilities, candidateSoftmax]
  cases expWeights elementary candidates with
  | none => rfl
  | some weights =>
    dsimp only
    rw [normalizeProbabilities]
    split
    · rfl
    · rfl

theorem typical_agrees (chain : Chain R) :
    (typical elementary params chain).toOption = (chain.typP elementary params).toOption := by
  rw [typical, Chain.typP]
  split
  · dsimp only
    rw [toOption_bind, toOption_bind, softmax_agrees]
    rfl
  · rfl

theorem expWeights_eq_none_iff {candidates : List (Candidate R)} : expWeights elementary candidates = none ↔
    ¬Unmasked candidates := by
  rw [unmasked_iff, not_not, expWeights]
  cases maximum candidates with
  | none => exact iff_of_true rfl rfl
  | some most => exact iff_of_false (Option.some_ne_none _) WithBot.coe_ne_bot

theorem scale_agrees (temperature : R) (chain : Chain R) :
    scale temperature chain.candidates = (chain.cool temperature).candidates := by
  rw [scale, Chain.cool]
  split
  · rfl
  · split
    · rfl
    · next one =>
      have same := @reweigh_eq R chain (fun candidate => candidate.2.map (· / temperature)) fun candidate _ => by
        rw [not_not.mp one]
        simp only [div_one]
        exact congrFun WithBot.map_id candidate.2
      exact congrArg Chain.candidates same

section Ordered

variable [IsStrictOrderedRing R]

/-- The greatest logit has a weight. -/
theorem expWeights_sum_pos {candidates : List (Candidate R)} {weights : List R}
    (is : expWeights elementary candidates = some weights) :
    0 < weights.sum := by
  obtain ⟨most, greatest, rfl⟩ := expWeights_eq_some is
  have unmasked : Unmasked candidates := unmasked_iff.mpr (greatest ▸ WithBot.coe_ne_bot)
  obtain ⟨candidate, mem, is⟩ := unmasked.maximum_mem
  have positive : 0 < weight elementary most candidate.2 := by
    rw [is, greatest]
    change 0 < elementary.exp (most - most)
    rw [sub_self]
    exact elementary.exp_zero_pos
  have nonnegative : ∀ value ∈ candidates.map fun candidate => weight elementary most candidate.2, 0 ≤ value := by
    intro value mem
    obtain ⟨other, -, rfl⟩ := List.mem_map.mp mem
    cases other.2 with
    | none => exact le_rfl
    | some value => exact elementary.exp_nonneg _
  exact positive.trans_le (List.single_le_sum nonnegative _ (List.mem_map_of_mem mem))

theorem softmax_eq (candidates : List (Candidate R)) : (candidateSoftmax elementary candidates).toOption =
    (expWeights elementary candidates).map fun weights => weights.map (· / weights.sum) := by
  rw [candidateSoftmax]
  cases found : expWeights elementary candidates with
  | none => rfl
  | some weights =>
    dsimp only
    rw [normalizeProbabilities, if_neg (not_le.mpr (expWeights_sum_pos found))]
    rfl

theorem softmax_eq_none_iff {candidates : List (Candidate R)} :
    (candidateSoftmax elementary candidates).toOption = none ↔ ¬Unmasked candidates := by
  rw [softmax_eq, Option.map_eq_none_iff, expWeights_eq_none_iff]

theorem topP_agrees (chain : Chain R) :
    (topP elementary params chain).toOption = (chain.topP elementary params).toOption := by
  rw [topP, Chain.topP]
  split
  · rw [toOption_bind, toOption_bind, softmax_agrees, Chain.sortOnce]
    cases chain.sorted with
    | true =>
      simp only [if_true, toOption_bind, softmax_agrees]
      cases (candidateSoftmax elementary chain.candidates).toOption with
      | none => rfl
      | some probabilities => rfl
    | false =>
      simp only [Bool.false_eq_true, if_false, toOption_bind, softmax_agrees]
      cases found : candidateSoftmax elementary chain.candidates with
      | error failure =>
        have none_ : (candidateSoftmax elementary chain.candidates).toOption = none := by rw [found]; rfl
        rw [softmax_eq_none_iff, ← unmasked_sort, ← softmax_eq_none_iff] at none_
        rw [none_]
        rfl
      | ok probabilities =>
        dsimp only [Except.toOption, Option.bind]
        rw [sort_zip (softmax_eq_ok found).1]
  · rfl

/-- A single candidate is the greatest, and so not below the threshold. -/
theorem topNSigma_agrees (chain : Chain R) : topNSigma elementary params chain = chain.topNSigma elementary params := by
  rw [topNSigma, Chain.topNSigma]
  by_cases used : 0 < params.topNSigma
  · rw [if_pos used]
    split
    · rfl
    · next few =>
      rw [not_and, not_lt] at few
      apply reweigh_eq
      intro candidate mem
      have single : maximum chain.candidates = candidate.2 := by
        obtain ⟨other, is⟩ := List.length_eq_one_iff.mp (le_antisymm (few used) (List.length_pos_of_mem mem))
        rw [is] at mem ⊢
        rw [List.mem_singleton.mp mem]
        exact max_bot_left _
      exact if_neg (not_lt.mpr (single ▸ Chain.threshold_le used _ _))
  · rw [if_neg used, if_neg fun both => used both.1]

theorem chosen_agrees (logits : List (Logit R)) : (chosen elementary params logits).toOption =
    (((Chain.topNSigma elementary params ⟨candidatesOf logits, false, false⟩).topK params).typP elementary
      params).toOption.bind
      fun chain => (chain.topP elementary params).toOption.map fun chain => chain.minP elementary params := by
  rw [chosen, topNSigma_agrees]
  rw [toOption_bind, typical_agrees]
  congr 1
  funext chain
  rw [toOption_bind, topP_agrees]
  cases (chain.topP elementary params).toOption with
  | none => rfl
  | some chain => rfl

end Ordered

end Stages

/-! ## Neutral requests -/

/-- A request that adds nothing to the default stages. -/
structure Neutral {R : Type} [Field R] [LinearOrder R] (request : SamplerRequest R) : Prop where
  samplers : request.samplers = none
  repeatPenalty : request.repeatPenalty.getD 1 = 1
  presencePenalty : request.presencePenalty.getD 0 = 0
  frequencyPenalty : request.frequencyPenalty.getD 0 = 0
  dry : request.dryMultiplier.getD 0 ≤ 0
  xtc : ¬(0 < request.xtcProbability.getD 0 ∧ request.xtcThreshold.getD (1 / 10) ≤ 1 / 2)
  dynatemp : request.dynatempRange.getD 0 ≤ 0

section Neutral

variable {R : Type} [Field R] [LinearOrder R] {elementary : Elementary R} {params : SamplingParams R}
  {request : SamplerRequest R}
  {tokenizer : Tokenizer} {history : List ℕ}

theorem penalties_neutral (neutral : Neutral request) (candidates : List (Candidate R)) :
    Chain.penalties request history ⟨candidates, false, false⟩ = ⟨candidates, false, false⟩ := by
  have same := @reweigh_eq R ⟨candidates, false, false⟩ (Chain.penalize request history) fun candidate _ => by
    rw [Chain.penalize]
    split
    · rw [neutral.repeatPenalty, neutral.presencePenalty, neutral.frequencyPenalty]
      simp only [ne_eq, not_true_eq_false, if_false, zero_mul, add_zero, sub_zero]
      exact congrFun WithBot.map_id candidate.2
    · rfl
  rw [Chain.penalties, same]

theorem dry_neutral (neutral : Neutral request) (candidates : List (Candidate R)) :
    Chain.dry request tokenizer history ⟨candidates, false, false⟩ = ⟨candidates, false, false⟩ := by
  have same := @reweigh_eq R ⟨candidates, false,
    false⟩ (fun candidate => candidate.2.map (· - dryPenalty tokenizer request history candidate.1))
    fun candidate _ => by
      rw [dryPenalty]
      simp only [neutral.dry, true_or, if_true, sub_zero]
      exact congrFun WithBot.map_id candidate.2
  rw [Chain.dry, same]

theorem xtc_neutral (neutral : Neutral request) (rng : Rng R) (chain : Chain R) :
    chain.xtc elementary params request rng = .ok (chain, rng) := by
  rw [Chain.xtc]
  exact if_neg fun used => neutral.xtc ⟨used.1, used.2.1⟩

theorem temperature_neutral (neutral : Neutral request) (chain : Chain R) :
    chain.temperature elementary params request = .ok (chain.cool params.temperature) := by
  rw [Chain.temperature]
  exact if_neg fun used => absurd used.1 (not_lt.mpr neutral.dynatemp)

/-- The chain of a neutral request. -/
theorem run_neutral (neutral : Neutral request) (candidates : List (Candidate R)) (rng : Rng R) :
    (Chain.run elementary params request tokenizer history ⟨candidates, false, false⟩ rng).toOption =
      ((((Chain.topNSigma elementary params ⟨candidates, false, false⟩).topK params).typP elementary params).toOption.bind
        fun chain => (chain.topP elementary params).toOption.map fun chain => chain.minP elementary params).map
      fun chain => ({ chain.cool params.temperature with adaptive := true }, rng) := by
  rw [Chain.run, Chain.stages, neutral.samplers]
  dsimp only [pinnedSamplerOrder]
  simp only [List.foldlM_cons, List.foldlM_nil, Chain.stage, penalties_neutral neutral, xtc_neutral neutral,
    temperature_neutral neutral, toOption_bind, toOption_map, toOption_ok, Option.bind_some, dry_neutral neutral,
      Option.map_some]
  cases (((Chain.topNSigma elementary params ⟨candidates, false, false⟩).topK params).typP elementary params).toOption with
  | none => rfl
  | some typical =>
    simp only [Option.map_some, Option.bind_some]
    cases (typical.topP elementary params).toOption with
    | none => rfl
    | some likely => rfl

open Muser.Reply.Distribution

/-- What is drawn from at the end, of the candidates before they are scaled. -/
def scaled (elementary : Elementary R) (params : SamplingParams R) (size : ℕ) (chain : Chain R) : Option (List ℕ × List R) :=
  (expWeights elementary (scale params.temperature chain.candidates)).map fun weights =>
    ((scale params.temperature chain.candidates).map (·.1), scatter size (scale params.temperature chain.candidates) weights)

variable {candidates : List (Candidate R)} {temperature : R}

theorem scale_eq_nil : scale temperature candidates = [] ↔ candidates = [] := by
  rw [scale]
  split
  · exact List.mapIdx_eq_nil_iff
  · exact List.map_eq_nil_iff

theorem expWeights_nil : expWeights elementary ([] : List (Candidate R)) = none := rfl

variable {logits : List (Logit R)}

/-- The engine distributes over what is chosen, if a logit is not masked. -/
theorem distributionOrdered_eq (valid : params.validate = .ok ()) :
    ((distributionOrdered elementary params logits).toOption.map fun ordered => (ordered.order, ordered.weights)) =
      if logits = [] ∨ ∀ logit ∈ logits, logit = ⊥ then none
      else (chosen elementary params logits).toOption.bind (scaled elementary params logits.length) := by
  rw [distributionOrdered, valid]
  by_cases masked : logits = [] ∨ ∀ logit ∈ logits, logit = ⊥
  · rw [if_pos masked, if_pos masked]
    rfl
  · rw [if_neg masked, if_neg masked, ← toOption_mapError Unsampled.error (chosen elementary params logits)]
    cases (chosen elementary params logits).mapError Unsampled.error with
    | error failure => rfl
    | ok chain =>
      simp only [bind, Except.bind, Except.mapError, toOption_ok, Option.bind_some, scaled]
      split
      · next none_ =>
        rw [scale_eq_nil.mpr none_, expWeights_nil]
        rfl
      · cases expWeights elementary (scale params.temperature chain.candidates) with
        | none => rfl
        | some weights => rfl

/-- A temperature of zero makes the greatest candidate one that is not masked, whatever it was. -/
theorem unmasked_scale :
    Unmasked (scale temperature candidates) ↔ if temperature ≤ 0 then candidates ≠ [] else Unmasked candidates := by
  rw [scale]
  split
  · constructor
    · rintro ⟨candidate, mem, -⟩ rfl
      cases mem
    · intro some_
      have values : candidates.map (·.2) ≠ [] := fun none_ => some_ (List.map_eq_nil_iff.mp none_)
      have inside := argmax_lt values
      rw [List.length_map] at inside
      refine ⟨_, List.mem_mapIdx.mpr ⟨_, inside, rfl⟩, ?_⟩
      dsimp only
      rw [if_pos rfl]
      exact WithBot.coe_ne_bot
  · constructor
    · exact fun unmasked => unmasked.of_follows (follows_map _ fun candidate _ masked => map_eq_bot.mpr masked)
    · exact fun unmasked => unmasked_map unmasked fun candidate _ some_ masked => some_ (map_eq_bot.mp masked)

variable {chain : Chain R}

theorem scaled_eq_none_iff {size : ℕ} :
    scaled elementary params size chain = none ↔ if params.temperature ≤ 0 then
      chain.candidates = [] else ¬Unmasked chain.candidates := by
  rw [scaled, Option.map_eq_none_iff, expWeights_eq_none_iff, unmasked_scale]
  split
  · rw [not_not]
  · rfl

theorem typicalP_of_validate (valid : params.validate = .ok ()) : 0 < params.typicalP := by
  rw [SamplingParams.validate, reject_eq_ok_iff] at valid
  simp only [Bool.not_eq_false', Bool.and_eq_true, decide_eq_true_eq] at valid
  exact valid.1.1.1.1.2

variable [IsStrictOrderedRing R]

/-- The server draws from what is chosen. -/
theorem beforeDraw_eq (neutral : Neutral request) (rng : Rng R) :
    ((beforeDraw elementary params request tokenizer logits history rng).toOption.map fun drawn =>
      (drawn.1.candidates.map (·.1), drawn.2.1)) =
      (chosen elementary params logits).toOption.bind (scaled elementary params logits.length) := by
  rw [beforeDraw, toOption_bind, run_neutral neutral, chosen_agrees, Option.bind_map, Option.map_bind]
  congr 1
  funext chain
  rw [Function.comp_apply, scaled, scale_agrees]
  dsimp only [Function.comp_apply]
  generalize (Chain.cool params.temperature chain).candidates = candidates
  split
  · next none_ => rw [none_, expWeights_nil]; rfl
  · rw [toOption_bind, samplerWeights]
    cases found : expWeights elementary candidates with
    | none => rfl
    | some weights =>
      dsimp only
      rw [if_neg (not_le.mpr (expWeights_sum_pos found))]
      rfl

theorem softmax_masked (masked : ¬Unmasked chain.candidates) :
    (candidateSoftmax elementary chain.sortOnce.candidates).toOption = none :=
  softmax_eq_none_iff.mpr fun unmasked => masked (unmasked.of_follows Chain.follows_sortOnce)

/-- Where all candidates are masked a stage that takes their probabilities fails, and otherwise leaves them. -/
theorem typP_masked (masked : ¬Unmasked chain.candidates) :
    (chain.typP elementary params).toOption = if params.typicalP < 1 then none else some chain := by
  rw [Chain.typP]
  split
  · rw [toOption_bind, softmax_masked masked]
    rfl
  · rfl

theorem topP_masked (masked : ¬Unmasked chain.candidates) :
    (chain.topP elementary params).toOption = if params.topP < 1 then none else some chain := by
  rw [Chain.topP]
  split
  · rw [toOption_bind, softmax_masked masked]
    rfl
  · rfl

/-- From masked logits the server draws only the first of some tokens, at a temperature of zero and with no share to
be cut. -/
theorem chosen_masked (masked : ∀ logit ∈ logits, logit = ⊥) :
    (chosen elementary params logits).toOption.bind (scaled elementary params logits.length) = none ↔
      ¬(logits ≠ [] ∧ params.temperature ≤ 0 ∧ 1 ≤ params.topP ∧ 1 ≤ params.typicalP) := by
  have first : ¬Unmasked (candidatesOf logits) := by
    rw [unmasked_candidatesOf]
    rintro ⟨logit, mem, some_⟩
    exact some_ (masked logit mem)
  have second : ¬Unmasked ((Chain.topNSigma elementary params ⟨candidatesOf logits, false, false⟩).topK params).candidates :=
    fun unmasked => first (unmasked.of_follows (Chain.topNSigma_keeps.1.trans Chain.topK_keeps.1))
  have empty : ((Chain.topNSigma elementary params ⟨candidatesOf logits, false, false⟩).topK params).candidates = [] ↔
      logits = [] := by
    rw [Chain.topK_eq_nil, Chain.topNSigma_eq_nil, candidatesOf, List.map_eq_nil_iff, List.zipIdx_eq_nil_iff]
  rw [chosen_agrees, typP_masked second]
  by_cases typical : params.typicalP < 1
  · rw [if_pos typical]
    exact iff_of_true rfl fun all => absurd typical (not_lt.mpr all.2.2.2)
  rw [if_neg typical, Option.bind_some, topP_masked second]
  by_cases likely : params.topP < 1
  · rw [if_pos likely]
    exact iff_of_true rfl fun all => absurd likely (not_lt.mpr all.2.2.1)
  rw [if_neg likely, Option.map_some, Option.bind_some, scaled_eq_none_iff, Chain.minP_eq_nil, empty]
  split
  · next cold => simp only [ne_eq, cold, not_lt.mp likely, not_lt.mp typical, and_self, and_true, not_not]
  · next warm =>
    exact iff_of_true (fun unmasked => second (unmasked.of_follows Chain.minP_follows)) fun all => warm all.2.1

/-- Of logits that are not all masked there is a distribution in numbers. -/
theorem chosen_unmasked (positive : 0 ≤ params.typicalP) (unmasked : ∃ logit ∈ logits, logit ≠ ⊥)
    (is : chosen elementary params logits = .ok chain) : Unmasked (scale params.temperature chain.candidates) := by
  have live : Chain.Live (⟨candidatesOf logits, false, false⟩ : Chain R) := ⟨unmasked_candidatesOf.mpr unmasked, nofun⟩
  have agrees := @chosen_agrees R _ _ elementary params _ logits
  rw [is, toOption_ok, eq_comm, Option.bind_eq_some_iff] at agrees
  obtain ⟨typical, found, more⟩ := agrees
  obtain ⟨likely, found', rfl⟩ := Option.map_eq_some_iff.mp more
  have typical_ := Chain.typP_live positive (toOption_eq_some_iff.mp found)
    (Chain.topK_keeps.2 (Chain.topNSigma_keeps.2 live))
  have last : ((likely.minP elementary params)).Live :=
    Chain.minP_live (Chain.topP_live (toOption_eq_some_iff.mp found') typical_)
  rw [unmasked_scale]
  split
  · rintro none_
    obtain ⟨candidate, mem, -⟩ := last.unmasked
    rw [none_] at mem
    cases mem
  · exact last.unmasked

theorem distributionOrdered_ne_notNumbers (positive : 0 ≤ params.typicalP) :
    distributionOrdered elementary params logits ≠ .error .notNumbers := by
  intro is
  rw [distributionOrdered] at is
  cases validated : params.validate with
  | error failure =>
    rw [validated] at is
    cases is
  | ok done =>
    rw [validated] at is
    by_cases masked : logits = [] ∨ ∀ logit ∈ logits, logit = ⊥
    · rw [if_pos masked] at is
      cases is
    · rw [if_neg masked] at is
      rw [not_or] at masked
      have unmasked : ∃ logit ∈ logits, logit ≠ ⊥ := by simpa only [not_forall, exists_prop] using masked.2
      cases found : chosen elementary params logits with
      | error failure =>
        rw [found] at is
        cases is
      | ok chain =>
        rw [found] at is
        have some_ := chosen_unmasked positive unmasked found
        simp only [bind, Except.bind, Except.mapError] at is
        split at is
        · cases is
        · split at is
          · next none_ => exact expWeights_eq_none_iff.mp none_ some_
          · cases is

/-- The two chains agree, unless all of some logits are masked and no stage looks at their probabilities. -/
theorem chains_agree_iff (tokenizer : Tokenizer) (history : List ℕ) (logits : List (Logit R)) (rng : Rng R)
    (neutral : Neutral request)
    (valid : params.validate = .ok ()) :
    distributionOrdered elementary params logits ≠ .error .notNumbers ∧
    (((beforeDraw elementary params request tokenizer logits history rng).toOption.map fun drawn =>
      (drawn.1.candidates.map (·.1), drawn.2.1)) =
        ((distributionOrdered elementary params logits).toOption.map fun ordered => (ordered.order, ordered.weights)) ↔
      (∃ logit ∈ logits, logit ≠ ⊥) ∨ logits = [] ∨ 0 < params.temperature ∨ params.topP < 1 ∨ params.typicalP < 1) := by
  refine ⟨distributionOrdered_ne_notNumbers (typicalP_of_validate valid).le, ?_⟩
  rw [beforeDraw_eq neutral, distributionOrdered_eq valid]
  by_cases unmasked : ∃ logit ∈ logits, logit ≠ ⊥
  · have some_ : ¬(logits = [] ∨ ∀ logit ∈ logits, logit = ⊥) := by
      obtain ⟨logit, mem, some_⟩ := unmasked
      rintro (rfl | masked)
      · cases mem
      · exact some_ (masked logit mem)
    rw [if_neg some_]
    exact iff_of_true rfl (.inl unmasked)
  · have masked : ∀ logit ∈ logits, logit = ⊥ := by simpa only [not_exists, not_and, not_not] using unmasked
    rw [if_pos (.inr masked), chosen_masked masked, or_iff_right unmasked]
    simp only [not_and_or, not_not, not_le]

/-- A request that sets nothing. -/
def plainRequest : SamplerRequest ℚ := { dryRequest none with dryMultiplier := none }

theorem plainRequest_neutral : Neutral plainRequest where
  samplers := rfl
  repeatPenalty := rfl
  presencePenalty := rfl
  frequencyPenalty := rfl
  dry := le_rfl
  xtc := fun used => lt_irrefl _ used.1
  dynatemp := le_rfl

theorem chains_agree_two :
    distributionOrdered levelElementary ⟨1, 1, 0, 1, 0, 0, 0⟩ [0, ⊥] ≠ .error .notNumbers ∧
    (((beforeDraw levelElementary ⟨1, 1, 0, 1, 0, 0, 0⟩ plainRequest letters [0, ⊥] [] fun _ => 0).toOption.map fun drawn =>
        (drawn.1.candidates.map (·.1), drawn.2.1)) =
        ((distributionOrdered levelElementary ⟨1, 1, 0, 1, 0, 0, 0⟩ [0, ⊥]).toOption.map fun ordered =>
          (ordered.order, ordered.weights)) ↔
      (∃ logit ∈ ([0, ⊥] : List (Logit ℚ)), logit ≠ ⊥) ∨ ([0, ⊥] : List (Logit ℚ)) = [] ∨ (0 : ℚ) < 1 ∨ (1 : ℚ) < 1 ∨
        (1 : ℚ) < 1) :=
  chains_agree_iff letters [] [0, ⊥] (fun _ => 0) plainRequest_neutral (by decide)

/-- From a single masked logit the server draws at a temperature of zero, where the engine has no distribution. -/
theorem masked_drawn : (beforeDraw levelElementary ⟨0, 1, 0, 1, 0, 0, 0⟩ plainRequest letters [⊥] [] fun _ =>
    0).toOption.map (fun drawn =>
      (drawn.1.candidates.map (·.1), drawn.2.1)) ≠
    (distributionOrdered levelElementary ⟨0, 1, 0, 1, 0, 0, 0⟩ [⊥]).toOption.map fun ordered =>
    (ordered.order, ordered.weights) := by
  rw [beforeDraw_eq plainRequest_neutral, distributionOrdered_eq (by decide), if_pos (.inr (by decide))]
  intro none_
  exact (chosen_masked (by decide)).mp none_ ⟨nofun, le_rfl, le_rfl, le_rfl⟩

end Neutral

end Muser.Reply
