import Mathlib.Order.WithBot
import Muser.Lib.Check
import Muser.Lib.Text
import Muser.Lib.Draws
import Muser.Gbnf.Matcher

/-! # The sampler

What a request asks of the sampler, and how a token is selected by it: the fields of a request, their
defaults and the checks they must pass, the stages of the chain in the order that the request asks for,
and the draw at its end. The numbers are exact: of any ordered field, with nothing below all of them for
a logit that is masked.
-/

namespace Muser.Reply

open Text

inductive ChatError where
  | badRequest (message : String)
  | engine (message : String)
  | cancelled
  | unavailable
deriving DecidableEq

/-- A logit, which may be masked. -/
abbrev Logit (R : Type) := WithBot R

/-- The stages of a sampler chain. -/
inductive Stage where
  | penalties
  | dry
  | topNSigma
  | topK
  | typP
  | topP
  | minP
  | xtc
  | temperature
  | adaptiveP
deriving DecidableEq

def Stage.name : Stage → String
  | penalties => "penalties"
  | dry => "dry"
  | topNSigma => "top_n_sigma"
  | topK => "top_k"
  | typP => "typ_p"
  | topP => "top_p"
  | minP => "min_p"
  | xtc => "xtc"
  | temperature => "temperature"
  | adaptiveP => "adaptive_p"

def pinnedSamplerOrder : List Stage := [.penalties, .dry, .topNSigma, .topK, .typP, .topP, .minP, .xtc,
    .temperature, .adaptiveP]

def Stage.ofName (name : String) : Option Stage := pinnedSamplerOrder.find? fun stage => stage.name == name

/-- What a request says about sampling. The biases are a hash map, here in the order it is visited. -/
structure SamplerRequest (R : Type) where
  temperature : Option R
  topP : Option R
  topK : Option ℕ
  typicalP : Option R
  minP : Option R
  topNSigma : Option R
  minKeep : Option ℕ
  ignoreEos : Bool
  logitBias : Option (List (Text × Logit R))
  repeatPenalty : Option R
  repeatLastN : Option ℤ
  presencePenalty : Option R
  frequencyPenalty : Option R
  dryMultiplier : Option R
  dryBase : Option R
  dryAllowedLength : Option ℕ
  dryPenaltyLastN : Option ℤ
  drySequenceBreakers : Option (List Text)
  mirostat : Option ℕ
  mirostatTau : Option R
  mirostatEta : Option R
  adaptiveTarget : Option R
  adaptiveDecay : Option R
  dynatempRange : Option R
  dynatempExponent : Option R
  xtcProbability : Option R
  xtcThreshold : Option R
  samplers : Option (List String)

structure SamplingParams (R : Type) where
  temperature : R
  topP : R
  topK : ℕ
  typicalP : R
  minP : R
  topNSigma : R
  minKeep : ℕ

section Validation

variable {R : Type}

/-- Whether a stage is asked for; the last of the pinned order has to be. -/
def samplerEnabled (request : SamplerRequest R) (stage : Stage) : Bool :=
  match request.samplers with
  | none => stage ∈ pinnedSamplerOrder.dropLast
  | some samplers => samplers.any fun sampler => sampler == stage.name

variable [Field R] [LinearOrder R]

def SamplingParams.validate (params : SamplingParams R) : Except ChatError Unit :=
  reject (!(decide (0 ≤ params.temperature) && decide (0 ≤ params.topP) && decide (params.topP ≤ 1) && decide
    (0 < params.typicalP) &&
      decide (params.typicalP ≤ 1) && decide (0 ≤ params.minP) && decide (params.minP ≤ 1) && decide (0 ≤ params.topNSigma)))
    (.badRequest "sampling parameters are outside their finite canonical ranges")

end Validation

/-! ## Weights and draws

Candidates with their logits, the weights that are made of them and the ways a candidate is drawn. The
functions of the arithmetic library are parameters; uniform draws come from a stream.
-/

section Weighing

/-- The functions of the arithmetic library, without rounding, and the sum of a logit and a bias, with any. -/
structure Elementary (R : Type) [Zero R] [LT R] [LE R] where
  exp : R → R
  ln : R → R
  log2 : R → R
  sqrt : R → R
  powf : R → R → R
  -- A number as a count: its whole part, and nothing below zero.
  toUsize : R → ℕ
  plus : Logit R → Logit R → Logit R
  exp_nonneg : ∀ value, 0 ≤ exp value
  exp_zero_pos : 0 < exp 0
  sqrt_nonneg : ∀ value, 0 ≤ sqrt value

/-- The uniform draws of a generator. -/
abbrev Rng (R : Type) := ℕ → R

def Rng.uniform {R : Type} (rng : Rng R) : R × Rng R := (rng 0, fun index => rng (index + 1))

/-- A token and its logit. -/
abbrev Candidate (R : Type) := ℕ × Logit R

variable {R : Type}

section Ordering

variable [LinearOrder R]

/-- Greater logits first, and then smaller tokens. -/
def descending (left right : Candidate R) : Bool :=
    decide (right.2 < left.2) || (decide (left.2 = right.2) && decide (left.1 ≤ right.1))

def sortSamplerCandidates (candidates : List (Candidate R)) : List (Candidate R) := candidates.mergeSort descending

/-- The greatest logit. -/
def maximum (candidates : List (Candidate R)) : Logit R := candidates.foldl (fun most candidate => max most candidate.2) ⊥

/-- The index of the first greatest value. -/
def argmax (values : List (Logit R)) : ℕ :=
  (List.range values.length).foldl (fun best index => if values.getD best ⊥ < values.getD index ⊥ then index else best) 0

end Ordering

variable [Field R] [LinearOrder R] (elementary : Elementary R)

/-- The weight of a logit beside the greatest one. -/
def weight (most : R) : Logit R → R
  | ⊥ => 0
  | some value => elementary.exp (value - most)

/-- The weights of candidates, if one of them is not masked. -/
def expWeights (candidates : List (Candidate R)) : Option (List R) :=
  match maximum candidates with
  | ⊥ => none
  | some most => some (candidates.map fun candidate => weight elementary most candidate.2)

def normalizeProbabilities (probabilities : List R) : Except ChatError (List R) :=
  if probabilities.sum ≤ 0 then .error (.engine "sampler removed every candidate probability")
  else .ok (probabilities.map (· / probabilities.sum))

def candidateSoftmax (candidates : List (Candidate R)) : Except ChatError (List R) :=
  match expWeights elementary candidates with
  | none => .error (.engine "sampler has no finite candidates")
  | some weights => normalizeProbabilities weights

def samplerWeights (candidates : List (Candidate R)) : Except ChatError (List R) :=
  match expWeights elementary candidates with
  | none => .error (.engine "sampler chain retained no finite candidate")
  | some weights =>
    if weights.sum ≤ 0 then .error (.engine "sampler chain produced an empty distribution") else .ok weights

/-- What is at an index of a vector. -/
def at_ (vector : List R) (index : ℕ) : R := vector.getD index 0

/-- The probabilities of the tokens of an order, made to sum to one. -/
def normalizeProbabilitiesOrdered (probabilities : List R) (order : List ℕ) : Except ChatError (List R) :=
  let total := (order.map (at_ probabilities)).sum
  if total ≤ 0 then .error (.engine "sampler removed every candidate probability")
  else .ok (order.foldl (fun probabilities token => probabilities.modify token (· / total)) probabilities)

def invalidLogits : ChatError := .engine "cannot sample empty or nonfinite logits"

/-- A token of an order, drawn by its share of the weights. -/
def sampleDistributionMtOrdered (weights : List R) (order : List ℕ) (rng : Rng R) : Except ChatError (ℕ × Rng R) :=
  if weights = [] ∨ order = [] ∨ (∃ value ∈ weights, value < 0) ∨ ∃ token ∈ order, weights.length ≤ token then
    .error invalidLogits
  else
    let total := (order.map (at_ weights)).sum
    if total ≤ 0 then .error invalidLogits
    else
      let (draw, rng) := rng.uniform
      let target := draw * total
      .ok ((reach (target ≤ ·) (at_ weights) 0 order).getD (order.getLastD 0), rng)

/-- A token of an order, drawn from the running sum of the probabilities. -/
def sampleDiscreteDistributionMtOrdered (probabilities : List R) (order : List ℕ) (rng : Rng R) :
    Except ChatError (ℕ × Rng R) :=
  if probabilities = [] ∨ order = [] ∨ (∃ value ∈ probabilities, value < 0) ∨ ∃ token ∈ order,
    probabilities.length ≤ token then
    .error invalidLogits
  else
    let total := (order.map (at_ probabilities)).sum
    if total ≤ 0 then .error invalidLogits
    else
      let (draw, rng) := rng.uniform
      .ok ((reach (draw < ·) (at_ probabilities · / total) 0 order.dropLast).getD (order.getLastD 0), rng)

/-- An index, drawn from the running sum of the probabilities. -/
def sampleDiscreteDistributionMt (probabilities : List R) (rng : Rng R) : Except ChatError (ℕ × Rng R) :=
  if probabilities = [] ∨ ∃ value ∈ probabilities, value < 0 then .error invalidLogits
  else if probabilities.sum ≤ 0 then .error invalidLogits
  else
    let (draw, rng) := rng.uniform
    .ok ((reach (draw < ·) (at_ probabilities · / probabilities.sum) 0 (List.range (probabilities.length - 1))).getD
      (probabilities.length - 1), rng)

end Weighing

/-! ## The sampler chain

The stages of the chain, in the order that a request asks for, and the draw at its end. A stage may sort
the candidates, mask some of them or drop some; the penalties for repetition read the tokens so far.
-/

section Stages

/-- What is known of the tokens: their bytes, and how a text is made of them. -/
structure Tokenizer where
  tokenBytes : ℕ → Bytes
  encode : Text → List ℕ
  isSpmBpe : Bool

section Repetition

/-- The last tokens, or all of them. -/
def lastTokens (count : ℤ) (history : List ℕ) : List ℕ :=
  if count < 0 then history else history.drop (history.length - count.toNat)

/-- The last place where some bytes stand in others. -/
def lastOccurrence (needle bytes : Bytes) : Option ℕ :=
  (List.range (bytes.length + 1 - needle.length)).reverse.find? fun start => (bytes.drop start).take needle.length = needle

def defaultBreakers : List Text := [['\n'], [':'], ['"'], ['*']]

/-- How many tokens stand behind the last breaker. -/
def repetitionLimit (tokenizer : Tokenizer) (history : List ℕ) (breakers : List Text) : ℕ :=
  let bytes := history.flatMap tokenizer.tokenBytes
  let boundaries := (List.range (history.length + 1)).map fun count =>
    ((history.take count).flatMap tokenizer.tokenBytes).length
  breakers.foldl (fun limit breaker =>
    if breaker = [] then limit
    else match lastOccurrence (Utf8.encodeAll breaker) bytes with
      | none => limit
      | some start =>
        let stop := start + (Utf8.encodeAll breaker).length
        min limit (((boundaries.findIdx? (stop ≤ ·)).map (history.length - ·)).getD 0)) history.length

/-- The lengths of the repetitions that a token would go on with. -/
def repetitions (history : List ℕ) (allowed maxMatch token : ℕ) : List ℕ :=
  (List.range' allowed (maxMatch + 1 - allowed)).filter fun length =>
    (List.range (history.length - length)).any fun start =>
      decide ((history.drop start).take length = history.drop (history.length - length)) && decide
        (history[start + length]? = some token)

end Repetition

variable {R : Type} [Field R] [LinearOrder R]

/-- What is taken from the logit of a token that goes on with a repetition. -/
def dryPenalty (tokenizer : Tokenizer) (request : SamplerRequest R) (history : List ℕ) (token : ℕ) : R :=
  let multiplier := request.dryMultiplier.getD 0
  if multiplier ≤ 0 ∨ history.length < 2 then 0
  else
    let allowed := request.dryAllowedLength.getD 2
    let base := (request.dryBase.filter (1 ≤ ·)).getD (175 / 100)
    let history := lastTokens (request.dryPenaltyLastN.getD 64) history
    let breakers := request.drySequenceBreakers.getD defaultBreakers
    let limit := repetitionLimit tokenizer history breakers
    if limit < allowed then 0
    else match (repetitions history allowed (min (history.length - 1) limit) token).max? with
      | none => 0
      | some length =>
        if breakers.any fun breaker => breaker ≠ [] ∧
          (lastOccurrence (Utf8.encodeAll breaker) (tokenizer.tokenBytes token)).isSome then 0
        else multiplier * base ^ min (length - allowed) 1024

/-- The base of the penalties. -/
def dryBase (request : SamplerRequest R) : R := (request.dryBase.filter (1 ≤ ·)).getD (175 / 100)

/-- Candidates on their way through a chain. -/
structure Chain (R : Type) where
  candidates : List (Candidate R)
  sorted : Bool
  adaptive : Bool

namespace Chain

variable (elementary : Elementary R) (params : SamplingParams R) (request : SamplerRequest R)

/-- Change the logits of the candidates. -/
def reweigh (chain : Chain R) (change : Candidate R → Logit R) : Chain R :=
  { chain with candidates := chain.candidates.map fun candidate => (candidate.1, change candidate) }

def sort (chain : Chain R) : Chain R := { chain with candidates := sortSamplerCandidates chain.candidates, sorted := true }

def sortOnce (chain : Chain R) : Chain R := if chain.sorted then
    chain else { chain with candidates := sortSamplerCandidates chain.candidates }

/-- The logit of a candidate that was said already; what is masked stays so, as what it is multiplied by is positive. -/
def penalize (history : List ℕ) (candidate : Candidate R) : Logit R :=
  let repeat_ := request.repeatPenalty.getD 1
  let presence := request.presencePenalty.getD 0
  let frequency := request.frequencyPenalty.getD 0
  if candidate.1 ∈ history then
    candidate.2.map fun value =>
      (if repeat_ ≠ 1 then if value ≤ 0 then value * repeat_ else value / repeat_ else value) -
        (presence + frequency * history.count candidate.1)
  else candidate.2

def penalties (history : List ℕ) (chain : Chain R) : Chain R :=
    { chain.reweigh (penalize request history) with sorted := false }

def dry (tokenizer : Tokenizer) (history : List ℕ) (chain : Chain R) : Chain R :=
  { chain.reweigh fun candidate =>
    candidate.2.map (· - dryPenalty tokenizer request history candidate.1) with sorted := false }

/-- The logits that are not masked. -/
def finite (candidates : List (Candidate R)) : List R := candidates.filterMap (·.2)

def topNSigma (chain : Chain R) : Chain R :=
  if 0 < params.topNSigma ∧ 1 < chain.candidates.length then
    let values := finite chain.candidates
    let mean : R := values.sum / values.length
    let variance : R := (values.map fun value => (value - mean) ^ 2).sum / values.length
    let threshold := (maximum chain.candidates).map (· - params.topNSigma * elementary.sqrt variance)
    chain.reweigh fun candidate => if candidate.2 < threshold then ⊥ else candidate.2
  else chain

def topK (chain : Chain R) : Chain R :=
  if 0 < params.topK then { chain.sort with candidates := chain.sort.candidates.take params.topK } else chain

/-- How many candidates there are up to where the running sum is enough, and no fewer than are kept anyway. -/
def cutAt (enough : R → Bool) (minKeep : ℕ) : ℕ → R → List R → Option ℕ
  | _, _, [] => none
  | count, sum, probability :: others =>
    if enough (sum + probability) && decide (minKeep ≤ count + 1) then some (count + 1)
    else cutAt enough minKeep (count + 1) (sum + probability) others

/-- The entropy, which is no number where a probability is zero. -/
def entropy (probabilities : List R) : Option R :=
  if ∀ probability ∈ probabilities, 0 < probability then
    some (probabilities.map fun probability => -probability * elementary.ln probability).sum
  else none

/-- How far from typical a candidate is; without a number they are all the same. -/
def surprise (entropy : Option R) (probability : R) : R :=
  match entropy with
  | none => 0
  | some entropy => |-elementary.ln probability - entropy|

def typicalBefore (entropy : Option R) (left right : Candidate R × R) : Bool :=
  decide (surprise elementary entropy left.2 < surprise elementary entropy right.2) ||
    (decide (surprise elementary entropy left.2 = surprise elementary entropy right.2) && decide (left.1.1 ≤ right.1.1))

def typP (chain : Chain R) : Except ChatError (Chain R) :=
  if params.typicalP < 1 then do
    let chain := chain.sortOnce
    let probabilities ← candidateSoftmax elementary chain.candidates
    let typical := (chain.candidates.zip probabilities).mergeSort
      (typicalBefore elementary (entropy elementary probabilities))
    let keep := (cutAt (params.typicalP < ·) params.minKeep 0 0 (typical.map (·.2))).getD typical.length
    .ok { chain with candidates := (typical.take (max keep 1)).map (·.1), sorted := false }
  else .ok chain

def topP (chain : Chain R) : Except ChatError (Chain R) :=
  if params.topP < 1 then do
    let chain := chain.sortOnce
    let probabilities ← candidateSoftmax elementary chain.candidates
    let keep := (cutAt (params.topP ≤ ·) params.minKeep 0 0 probabilities).getD chain.candidates.length
    .ok { chain with candidates := chain.candidates.take (max keep 1), sorted := true }
  else .ok chain

def minP (chain : Chain R) : Chain R :=
  if 0 < params.minP then
    let threshold := (maximum chain.candidates).map (· + elementary.ln params.minP)
    let filtered := chain.candidates.filter (threshold ≤ ·.2)
    if chain.sorted = false ∧ filtered ≠ [] ∧ params.minKeep ≤ filtered.length then { chain with candidates := filtered }
    else
      let chain := if chain.sorted then chain else chain.sort
      let matching := (chain.candidates.takeWhile (threshold ≤ ·.2)).length
      { chain with candidates := chain.candidates.take (max (max matching params.minKeep) 1) }
  else chain

def xtc (rng : Rng R) (chain : Chain R) : Except ChatError (Chain R × Rng R) :=
  if 0 < request.xtcProbability.getD 0 ∧ request.xtcThreshold.getD (1 / 10) ≤ 1 / 2 ∧ 2 ≤ chain.candidates.length then
    let (draw, rng) := rng.uniform
    if draw ≤ request.xtcProbability.getD 0 then do
      let chain := chain.sort
      let probabilities ← candidateSoftmax elementary chain.candidates
      let above := (probabilities.takeWhile (request.xtcThreshold.getD (1 / 10) ≤ ·)).length
      let dropped := if 1 < above ∧ params.minKeep ≤ chain.candidates.length - (above - 1) then above - 1 else 0
      .ok ({ chain with candidates := chain.candidates.drop dropped }, rng)
    else .ok (chain, rng)
  else .ok (chain, rng)

/-- The temperature that goes with the entropy of the candidates, which are sorted for it. -/
def dynamicTemperature (range : R) (chain : Chain R) : Except ChatError (R × Chain R) := do
  let chain := chain.sort
  let probabilities ← candidateSoftmax elementary chain.candidates
  let entropy := ((probabilities.filter (0 < ·)).map fun probability => -probability * elementary.ln probability).sum /
    -elementary.ln (1 / chain.candidates.length)
  let minimum := max (params.temperature - range) 0
  let maximum := params.temperature + range
  .ok (minimum + (maximum - minimum) * elementary.powf entropy (request.dynatempExponent.getD 1), chain)

/-- Divide the logits, or mask all but the greatest. -/
def cool (temperature : R) (chain : Chain R) : Chain R :=
  if temperature ≤ 0 then
    let greatest := argmax (chain.candidates.map (·.2))
    { chain with candidates := chain.candidates.mapIdx fun index candidate =>
      (candidate.1, if index = greatest then (0 : R) else ⊥) }
  else if temperature ≠ 1 then chain.reweigh fun candidate => candidate.2.map (· / temperature)
  else chain

def temperature (chain : Chain R) : Except ChatError (Chain R) :=
  let range := request.dynatempRange.getD 0
  if 0 < range ∧ 1 < chain.candidates.length then do
    let (temperature, chain) ← dynamicTemperature elementary params request range chain
    .ok (chain.cool temperature)
  else .ok (chain.cool params.temperature)

/-- One stage; of all of them only the exclusion of top choices draws. -/
def stage (tokenizer : Tokenizer) (history : List ℕ) (chain : Chain R) (rng : Rng R) :
    Stage → Except ChatError (Chain R × Rng R)
  | .penalties => .ok (chain.penalties request (lastTokens (request.repeatLastN.getD 64) history), rng)
  | .dry => .ok (chain.dry request tokenizer (lastTokens (request.repeatLastN.getD 64) history), rng)
  | .topNSigma => .ok (chain.topNSigma elementary params, rng)
  | .topK => .ok (chain.topK params, rng)
  | .typP => (chain.typP elementary params).map (·, rng)
  | .topP => (chain.topP elementary params).map (·, rng)
  | .minP => .ok (chain.minP elementary params, rng)
  | .xtc => chain.xtc elementary params request rng
  | .temperature => (chain.temperature elementary params request).map (·, rng)
  | .adaptiveP => .ok ({ chain with adaptive := true }, rng)

/-- The stages that a request asks for. -/
def stages : List Stage :=
  match request.samplers with
  | none => pinnedSamplerOrder
  | some samplers => samplers.filterMap Stage.ofName

/-- The candidates at the end of the chain. -/
def run (tokenizer : Tokenizer) (history : List ℕ) (chain : Chain R) (rng : Rng R) : Except ChatError (Chain R × Rng R) :=
  (stages request).foldlM (fun both next =>
    stage elementary params request tokenizer history both.1 both.2 next) (chain, rng)

end Chain

end Stages

/-! ## Selecting a token

The token that comes next: the greatest logit that a grammar allows, or a draw at the end of the sampler
chain or by mirostat. A draw is made without the grammar first, and made again with it when the grammar
does not allow what was drawn.
-/

section Selecting

open Gbnf

variable {R : Type} [Field R] [LinearOrder R]

structure AdaptiveSamplerState (R : Type) where
  target : R
  decay : R
  weightedSum : R
  totalWeight : R
  rng : Rng R
  pending : Option (ℕ × R)

structure RequestSamplerState (R : Type) where
  distributionRng : Rng R
  xtcRng : Rng R
  mirostatRng : Rng R
  mirostatMu : R
  adaptive : AdaptiveSamplerState R

def AdaptiveSamplerState.new (request : SamplerRequest R) (rng : Rng R) : AdaptiveSamplerState R :=
  let target := request.adaptiveTarget.getD (-1)
  let decay := min (max (request.adaptiveDecay.getD (9 / 10)) 0) (99 / 100)
  ⟨target, decay, target / (1 - decay), 1 / (1 - decay), rng, none⟩

def RequestSamplerState.new (request : SamplerRequest R) (rng : Rng R) : RequestSamplerState R :=
  ⟨rng, rng, rng, request.mirostatTau.getD 5 * 2, .new request rng⟩

/-- The model and the server beside a request: its tokens, and those that end a reply. -/
structure Served where
  tokenizer : Tokenizer
  eos : List ℕ

/-- A grammar's matcher, with the order that its sets are visited in to try each token. -/
structure Constraint where
  matcher : GrammarMatcher
  order : ℕ → IterationOrder

def Constraint.allows (constraint : Constraint) (served : Served) (token : ℕ) : Bool :=
  if token ∈ served.eos then constraint.matcher.isAccepting
  else constraint.matcher.allowsToken (constraint.order token) token.toUInt32 (served.tokenizer.tokenBytes token)

variable (elementary : Elementary R) (served : Served)

namespace AdaptiveSamplerState

/-- The weight of a probability beside the target. -/
def adapted (near probability : R) : R :=
  let distance := |(probability - near) / (3 / 10)|
  5 - 10 * distance * distance / (1 + distance)

def sample (adaptive : AdaptiveSamplerState R) (original : List R) (order : List ℕ) :
    Except ChatError (ℕ × AdaptiveSamplerState R) :=
  let target := min (max adaptive.target 0) 1
  let near := min (max (2 * target - adaptive.weightedSum / adaptive.totalWeight) 0) 1
  match ((original.filter (0 < ·)).map (adapted near)).max? with
  | none => .error (.engine "adaptive_p received an empty distribution")
  | some most => do
    let transformed := original.map fun probability => if 0 < probability then
      elementary.exp (adapted near probability - most) else 0
    let (selected, rng) ← sampleDiscreteDistributionMtOrdered transformed order adaptive.rng
    .ok (selected, { adaptive with rng := rng, pending := some (selected, at_ original selected) })

def accept (adaptive : AdaptiveSamplerState R) (token : ℕ) : AdaptiveSamplerState R :=
  match adaptive.pending with
  | none => adaptive
  | some (pending, probability) =>
    if pending = token then
      { adaptive with
        pending := none
        weightedSum := probability + adaptive.decay * adaptive.weightedSum
        totalWeight := 1 + adaptive.decay * adaptive.totalWeight }
    else { adaptive with pending := none }

end AdaptiveSamplerState

/-- Put the weights of candidates where their tokens are. -/
def scatter (size : ℕ) (candidates : List (Candidate R)) (weights : List R) : List R :=
  (candidates.zip weights).foldl (fun vector both => vector.set both.1.1 both.2) (List.replicate size 0)

/-- Mask the tokens that a grammar does not allow. -/
def maskLogits (constraint : Constraint) (logits : List (Logit R)) : List (Logit R) :=
  logits.mapIdx fun token logit => if constraint.allows served token then logit else ⊥

def candidatesOf (logits : List (Logit R)) : List (Candidate R) := logits.zipIdx.map fun both => (both.2, both.1)

/-- The draw at the end of a chain. -/
def finalDraw (size : ℕ) (chain : Chain R) (sampler : RequestSamplerState R) :
    Except ChatError (ℕ × RequestSamplerState R) :=
  if chain.candidates = [] then .error (.engine "sampler chain removed every candidate")
  else do
    let weights ← samplerWeights elementary chain.candidates
    let samplingWeights := scatter size chain.candidates weights
    let order := chain.candidates.map (·.1)
    let probabilities ← normalizeProbabilitiesOrdered samplingWeights order
    if chain.adaptive ∧ 0 ≤ sampler.adaptive.target then do
      let (token, adaptive) ← sampler.adaptive.sample elementary probabilities order
      .ok (token, { sampler with adaptive := adaptive })
    else do
      let (token, rng) ← sampleDistributionMtOrdered samplingWeights order sampler.distributionRng
      .ok (token, { sampler with distributionRng := rng })

def sampleStandardChain (params : SamplingParams R) (request : SamplerRequest R) (logits : List (Logit R)) (history : List ℕ)
    (constraint : Option Constraint) (sampler : RequestSamplerState R) : Except ChatError (ℕ × RequestSamplerState R) := do
  let masked := match constraint with
    | none => logits
    | some constraint => maskLogits served constraint logits
  if constraint.isSome ∧ ∀ logit ∈ masked, logit = ⊥ then .error (.engine "constrained grammar rejected every sampled token")
  let (chain, xtcRng) ← Chain.run elementary params request served.tokenizer history ⟨candidatesOf masked, false,
    false⟩ sampler.xtcRng
  finalDraw elementary logits.length chain { sampler with xtcRng := xtcRng }

/-- How many candidates the first form of mirostat keeps, before bounds. -/
def mirostatKeep (size : ℕ) (mu : R) (probabilities : List R) : ℕ :=
  let pairs := (List.range (min 99 (probabilities.length - 1))).map fun index =>
    (elementary.ln ((index + 2 : ℕ) / (index + 1 : ℕ)),
      elementary.ln (at_ probabilities index / at_ probabilities (index + 1)))
  let sHat := (pairs.map fun pair => pair.1 * pair.2).sum / (pairs.map fun pair => pair.1 * pair.1).sum
  let epsilonHat := sHat - 1
  let base := (epsilonHat * elementary.powf 2 mu) / (1 - elementary.powf size (-epsilonHat))
  -- The power to an exponent without bound, which is where the candidates are all alike.
  if sHat = 0 then if 1 < base then probabilities.length else if base = 1 then 1 else 0
  else elementary.toUsize (elementary.powf base (1 / sHat))

def sampleMirostat (request : SamplerRequest R) (logits : List (Logit R)) (constraint : Option Constraint)
    (sampler : RequestSamplerState R) : Except ChatError (ℕ × RequestSamplerState R) :=
  let temperature := request.temperature.getD (8 / 10)
  let eligible := (candidatesOf logits).filter fun candidate =>
    candidate.2 ≠ ⊥ ∧ constraint.all fun constraint => constraint.allows served candidate.1
  match eligible with
  | [] => .error (.engine "constrained grammar rejected every sampled token")
  | first :: others =>
    if temperature ≤ 0 then do
      let selected := others.foldl (fun selected candidate => if selected.2 < candidate.2 then candidate else selected) first
      let (_, rng) ← sampleDiscreteDistributionMt [1] sampler.mirostatRng
      .ok (selected.1, { sampler with
        mirostatRng := rng
        mirostatMu := sampler.mirostatMu + request.mirostatEta.getD (1 / 10) * request.mirostatTau.getD 5 })
    else do
      let candidates := sortSamplerCandidates (eligible.map fun candidate =>
        (candidate.1, candidate.2.map (· / temperature)))
      let probabilities ← candidateSoftmax elementary candidates
      let keep :=
        if request.mirostat.getD 0 = 1 then
          min (max (mirostatKeep elementary logits.length sampler.mirostatMu probabilities) 1) candidates.length
        else max ((probabilities.findIdx? fun probability => sampler.mirostatMu < -elementary.log2 probability).getD
          probabilities.length) 1
      let kept := candidates.take keep
      let probabilities ← candidateSoftmax elementary kept
      let (selected, rng) ← sampleDiscreteDistributionMt probabilities sampler.mirostatRng
      let surprise := -elementary.log2 (at_ probabilities selected)
      .ok ((kept.getD selected (0, ⊥)).1, { sampler with
        mirostatRng := rng
        mirostatMu := sampler.mirostatMu - request.mirostatEta.getD (1 / 10) * (surprise - request.mirostatTau.getD 5) })

/-- The number that a text writes, behind a plus sign or none. -/
def parseUsize (text : Text) : Option ℕ :=
  let digits := match text with
    | '+' :: rest => rest
    | _ => text
  if digits = [] ∨ ¬digits.all Char.isDigit then none
  else
    let value := digits.foldl (fun value digit => value * 10 + (digit.toNat - '0'.toNat)) 0
    if 2 ^ 64 ≤ value then none else some value

/-- Add a bias to the logits of its tokens. -/
def addBias (debug : Text → String) (logits : List (Logit R)) (bias : Text × Logit R) : Except ChatError (List (Logit R)) :=
  let tokens := match parseUsize bias.1 with
    | some token => [token]
    | none => served.tokenizer.encode bias.1
  if tokens = [] then .error (.badRequest s!"logit_bias string target '{debug bias.1}' produced no tokens")
  else tokens.foldlM (fun logits token =>
    if token < logits.length then .ok (logits.modify token (elementary.plus · bias.2))
    else .error (.badRequest s!"logit_bias token {token} is out of vocabulary")) logits

/-- The logits of a model, as a request changes them. -/
def adjustLogits (debug : Text → String) (request : SamplerRequest R) (logits : List R) :
    Except ChatError (List (Logit R)) :=
  let adjusted : List (Logit R) := logits.map some
  let adjusted := if request.ignoreEos then
    served.eos.foldl (fun adjusted token => adjusted.set token ⊥) adjusted else adjusted
  (request.logitBias.getD []).foldlM (addBias elementary served debug) adjusted

/-- One pass of the sampler. -/
def sample (params : SamplingParams R) (request : SamplerRequest R) (adjusted : List (Logit R)) (history : List ℕ)
    (constraint : Option Constraint) (sampler : RequestSamplerState R) : Except ChatError (ℕ × RequestSamplerState R) :=
  if request.mirostat.getD 0 ≠ 0 then sampleMirostat elementary served request adjusted constraint sampler
  else sampleStandardChain elementary served params request adjusted history constraint sampler

/-- A draw without the grammar, and another one with it where the first is not allowed. -/
def sampleTwice (params : SamplingParams R) (request : SamplerRequest R) (adjusted : List (Logit R)) (history : List ℕ)
    (constraint : Option Constraint) (sampler : RequestSamplerState R) : Except ChatError (ℕ × RequestSamplerState R) := do
  let (first, sampler) ← sample elementary served params request adjusted history none sampler
  if constraint.all fun constraint => constraint.allows served first then .ok (first, sampler)
  else sample elementary served params request adjusted history constraint sampler

/-- Tell the adaptive sampler what was selected. -/
def settleAdaptive (request : SamplerRequest R) (selected : ℕ) (sampler : RequestSamplerState R) : RequestSamplerState R :=
  if samplerEnabled request .adaptiveP ∧ 0 ≤ sampler.adaptive.target then
    { sampler with adaptive := sampler.adaptive.accept selected }
  else sampler

/-- The tokens by their logits, the greatest first. -/
def ranked (adjusted : List (Logit R)) : List ℕ := (sortSamplerCandidates (candidatesOf adjusted)).map (·.1)

def sampleOrArgmax (debug : Text → String) (params : Option (SamplingParams R)) (request : SamplerRequest R)
    (logits : List R)
    (history : List ℕ) (constraint : Option Constraint) (sampler : RequestSamplerState R) :
    Except ChatError (ℕ × RequestSamplerState R) := do
  let adjusted ← adjustLogits elementary served debug request logits
  match params with
  | some params => do
    let (selected, sampler) ← sampleTwice elementary served params request adjusted history constraint sampler
    .ok (selected, settleAdaptive request selected sampler)
  | none =>
    match constraint with
    | none => .ok (argmax adjusted, sampler)
    | some constraint =>
      match (ranked adjusted).find? (constraint.allows served) with
      | none => .error (.engine "constrained grammar rejected every token")
      | some token => .ok (token, sampler)

end Selecting

end Muser.Reply
