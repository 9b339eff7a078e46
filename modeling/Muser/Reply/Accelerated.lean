import Muser.Reply.Blocks
import Muser.Reply.Masked

/-! # What the greedy path comes to

The greedy path is meant for requests that the plain path answers with the greatest logits. It does not
ask whether the request changes the logits by biases, which the reduction knows nothing of, and of equal
logits the reduction takes another than the plain path does. So the two paths agree exactly as long as
every token that the plain path selects behind the first one leads the logits without biases.
-/

namespace Muser.Reply

open Text Gbnf Atem

variable {R Value : Type} [Field R] [LinearOrder R] {around : Surroundings R Value}

section Adjusting

/-- A change of logits that fails or not by their number, which it keeps. -/
def Uniform (change : List (Logit R) → Except ChatError (List (Logit R))) : Prop :=
  ∀ logits changed, change logits = .ok changed → changed.length = logits.length ∧
    ∀ other : List (Logit R), other.length = logits.length → ∃ changed', change other = .ok changed'

omit [Field R] [LinearOrder R] in
theorem uniform_foldlM {α : Type} {change : List (Logit R) → α → Except ChatError (List (Logit R))}
    (each : ∀ value, Uniform (change · value)) (values : List α) : Uniform fun logits => values.foldlM change logits := by
  induction values with
  | nil =>
    intro logits changed is
    cases is
    exact ⟨rfl, fun other _ => ⟨other, rfl⟩⟩
  | cons value values ih =>
    intro logits changed is
    dsimp only at is
    cases first : change logits value with
    | error error =>
      rw [List.foldlM_cons, first] at is
      cases is
    | ok middle =>
      rw [List.foldlM_cons, first] at is
      obtain ⟨length, others⟩ := each value logits middle first
      obtain ⟨length', others'⟩ := ih middle changed is
      refine ⟨length'.trans length, fun other same => ?_⟩
      obtain ⟨middle', first'⟩ := others other same
      have length'' := (each value other middle' first').1
      obtain ⟨changed', is'⟩ := others' middle' (length''.trans (same.trans length.symm))
      refine ⟨changed', ?_⟩
      dsimp only at first' ⊢
      rw [List.foldlM_cons, first']
      exact is'

theorem uniform_addBias (elementary : Elementary R) (served : Served) (debug : Text → String) (bias : Text × Logit R) :
    Uniform (addBias elementary served debug · bias) := by
  have each : ∀ token : ℕ, Uniform fun logits : List (Logit R) =>
      if token < logits.length then .ok (logits.modify token (elementary.plus · bias.2))
      else .error (.badRequest s!"logit_bias token {token} is out of vocabulary") := by
    intro token logits changed is
    dsimp only at is
    split at is
    · next inside =>
      cases is
      exact ⟨List.length_modify _ _ _, fun other same => ⟨_, if_pos (same ▸ inside)⟩⟩
    · cases is
  have all : ∀ tokens : List ℕ, Uniform fun logits : List (Logit R) =>
      if tokens = [] then .error (.badRequest s!"logit_bias string target '{debug bias.1}' produced no tokens")
      else tokens.foldlM (fun logits token =>
        if token < logits.length then .ok (logits.modify token (elementary.plus · bias.2))
        else .error (.badRequest s!"logit_bias token {token} is out of vocabulary")) logits := by
    intro tokens
    by_cases nothing : tokens = []
    · simp only [if_pos nothing]
      intro logits changed is
      cases is
    · simp only [if_neg nothing]
      exact uniform_foldlM each tokens
  unfold addBias
  cases parseUsize bias.1 with
  | some token => exact all [token]
  | none => exact all (served.tokenizer.encode bias.1)

variable {elementary : Elementary R} {served : Served} {debug : Text → String} {request : SamplerRequest R}
  {logits other : List R} {adjusted : List (Logit R)}

omit [Field R] [LinearOrder R] in
/-- The logits before the biases are as many. -/
theorem length_unbiased (values : List (Logit R)) :
    (if request.ignoreEos then served.eos.foldl (fun adjusted token =>
      adjusted.set token ⊥) values else values).length = values.length := by
  split
  · exact length_foldl_set _
  · rfl

theorem length_adjustLogits (adjusts : adjustLogits elementary served debug request logits = .ok adjusted) :
    adjusted.length = logits.length :=
  (uniform_foldlM (uniform_addBias elementary served debug) _ _ adjusted adjusts).1.trans
    ((length_unbiased _).trans (List.length_map _))

/-- Biases fit all the logits of a vocabulary, or none. -/
theorem adjusts_all (adjusts : ∃ adjusted, adjustLogits elementary served debug request logits = .ok adjusted)
    (same : other.length = logits.length) :
    ∃ adjusted, adjustLogits elementary served debug request other = .ok adjusted := by
  obtain ⟨adjusted, is⟩ := adjusts
  refine (uniform_foldlM (uniform_addBias elementary served debug) _ _ adjusted is).2 _ ?_
  have lengths : (other.map (some : R → Logit R)).length = (logits.map (some : R → Logit R)).length := by
    rw [List.length_map, List.length_map, same]
  exact (length_unbiased _).trans (lengths.trans (length_unbiased _).symm)

end Adjusting

section Starting

variable {request : GreedyRequest R} {serving : Serving} {params : Option (SamplingParams R)}
  {grammar : Option GrammarMatcher}
  {target : List ℕ → List R} {prompt : List ℕ} {sampler : RequestSamplerState R} {maxTokens : ℕ}

/-- Fields without a stop word leave the filter nothing to look for. -/
theorem new_idle {stop : Option StopField} (empty : ∀ field, stop = some field → field.isEmpty = true) :
    (StopFilter.new (stop.elim [] StopField.values)).stops = [] ∧
    (StopFilter.new (stop.elim [] StopField.values)).holdBytes = 0 := by
  cases stop with
  | none => exact ⟨rfl, rfl⟩
  | some field =>
    have nothing := empty field rfl
    cases field with
    | one value =>
      rw [List.isEmpty_iff.mp (show value.isEmpty = true from nothing)]
      exact ⟨rfl, rfl⟩
    | many values =>
      rw [List.isEmpty_iff.mp (show values.isEmpty = true from nothing)]
      exact ⟨rfl, rfl⟩

omit [Field R] [LinearOrder R] in
/-- A request on the greedy path has no use for what the path leaves out. -/
theorem eligible_of_gpuGreedy (greedy : gpuGreedy serving request params grammar = true) :
    params = none ∧ Eligible request.toReplyRequest ∧
      Idle (ReplyState.start request.toReplyRequest prompt grammar sampler) := by
  simp only [gpuGreedy, Bool.and_eq_true, Option.isNone_iff_eq_none, Bool.not_eq_true', Option.all_eq_true] at greedy
  obtain ⟨⟨⟨⟨⟨⟨⟨⟨⟨⟨⟨⟨-, -⟩, -⟩, params⟩, ignoreEos⟩, stop⟩, grammar⟩, tools⟩, reasoning⟩, -⟩, timeless⟩, -⟩, -⟩ := greedy
  obtain ⟨stops, holds⟩ := new_idle stop
  refine ⟨params, ⟨ignoreEos, reasoning, ?_⟩, ⟨grammar, ?_, rfl, stops, rfl, holds⟩⟩
  · cases limit : request.tMaxPredictMs with
    | none => rfl
    | some limit' =>
      have past := timeless limit' limit
      exact decide_eq_false (not_lt.mpr (of_decide_eq_true past))
  · rw [ReplyState.start, tools]
    rfl

/-- The state in which the first token has been selected. -/
def firstState (around : Surroundings R Value) (request : ReplyRequest R) (prompt : List ℕ) (logits : List R)
    (sampler : RequestSamplerState R) :
    ReplyState R :=
  { ReplyState.start request prompt none sampler with next := plainToken around request logits }

theorem beginReply_ok {request : ReplyRequest R} (eligible : Eligible request) {logits : List R} {adjusted : List (Logit R)}
    (adjusts : adjustLogits around.elementary around.served around.outside.debug request.sampler logits = .ok adjusted) :
    beginReply around request none logits (ReplyState.start request prompt none sampler) =
      (.ok (), firstState around request prompt logits sampler) := by
  rw [beginReply, eligible.reasoning]
  exact selectNext_idle eligible rfl rfl 0 adjusts

variable {error : ChatError}

theorem beginReply_error {request : ReplyRequest R} (eligible : Eligible request) {logits : List R}
    (fails : adjustLogits around.elementary around.served around.outside.debug request.sampler logits = .error error) :
    beginReply around request none logits (ReplyState.start request prompt none sampler) =
      (.error error, ReplyState.start request prompt none sampler) := by
  rw [beginReply, eligible.reasoning]
  show selectNext around request none 0 logits (ReplyState.start request prompt none sampler) = _
  have quiet : takeForcedReasoningToken around [] false false = (none, []) := rfl
  rw [selectNext, eligible.reasoning, Bool.false_and, ReplyState.start, quiet]
  dsimp only
  rw [sampleOrArgmax, fails]
  rfl

/-- Biases that do not fit the vocabulary end the reply before its first token, on both paths. -/
theorem replyBy_error (eligible : Eligible request.toReplyRequest)
    (fails : adjustLogits around.elementary around.served around.outside.debug request.sampler (target prompt) =
      .error error) (greedy : Bool) :
    replyBy around request none (maxTokens + 1) prompt (target prompt) none sampler greedy =
      settleReply (.error error, ReplyState.start request.toReplyRequest prompt none sampler) := by
  rw [replyBy, replyTokens, if_neg (Nat.succ_ne_zero maxTokens), Prog.bind_of_error (beginReply_error eligible fails)]

variable (adjusts : ∃ adjusted,
  adjustLogits around.elementary around.served around.outside.debug request.sampler (target prompt) = .ok adjusted)
include adjusts

/-- The plain path says the chain of the greatest adjusted logits. -/
theorem replyBy_plain (eligible : Eligible request.toReplyRequest)
    (idle : Idle (ReplyState.start request.toReplyRequest prompt none sampler))
    (serves : Serves around target) :
    ∃ ran, replyBy around request none (maxTokens + 1) prompt (target prompt) none sampler false =
      settleReply (closeRun around ran) ∧
      Says around ran (firstState around request.toReplyRequest prompt (target prompt) sampler)
        (plainToken around request.toReplyRequest (target prompt) ::
          chain (fun history => plainToken around request.toReplyRequest (target history))
            (prompt ++ [plainToken around request.toReplyRequest (target prompt)]) maxTokens) := by
  have all : ∀ history, ∃ adjusted,
      adjustLogits around.elementary around.served around.outside.debug request.sampler (target history) = .ok adjusted :=
    fun history => adjusts_all adjusts ((serves.length history).trans (serves.length prompt).symm)
  obtain ⟨adjusted, is⟩ := adjusts
  obtain ⟨ran, turned, spoken⟩ := turns_says eligible serves all (maxTokens + 1) maxTokens 0 (Nat.zero_add _)
    (firstState around request.toReplyRequest prompt (target prompt) sampler)
    ⟨idle.grammar, idle.calls, idle.forced, idle.stops, idle.pending, idle.holds⟩
  refine ⟨ran, ?_, spoken⟩
  rw [replyBy, replyTokens, if_neg (Nat.succ_ne_zero maxTokens), Prog.bind_of_ok (beginReply_ok eligible is)]
  obtain ⟨error | ⟨⟩, after⟩ := ran
  · exact congrArg settleReply (Prog.bind_of_error turned)
  · exact congrArg settleReply (Prog.bind_of_ok turned)

/-- The greedy path says the chain of what the reduction finds, behind the same first token. -/
theorem replyBy_greedy (eligible : Eligible request.toReplyRequest) (serves : Serves around target)
    (inside : EndsInside around) :
    ∃ ran, replyBy around request none (maxTokens + 1) prompt (target prompt) none sampler true =
      settleReply (closeRun around ran) ∧
      Says around ran (firstState around request.toReplyRequest prompt (target prompt) sampler)
        (plainToken around request.toReplyRequest (target prompt) ::
          chain (greedyToken around target)
            (prompt ++ [plainToken around request.toReplyRequest (target prompt)]) maxTokens) := by
  obtain ⟨adjusted, is⟩ := adjusts
  have first : plainToken around request.toReplyRequest (target prompt) < around.vocabSize := by
    have length := (length_adjustLogits is).trans (serves.length prompt)
    rw [plainToken, is, ← length]
    exact argmax_lt (List.length_pos_iff.mp (length ▸ serves.nonempty))
  have spoken := greedyBlocks_says serves inside maxTokens
    (firstState around request.toReplyRequest prompt (target prompt) sampler) first
  refine ⟨_, ?_, spoken⟩
  rw [replyBy, replyTokens, if_neg (Nat.succ_ne_zero maxTokens), Prog.bind_of_ok (beginReply_ok eligible is), if_pos rfl]
  rcases ran : greedyBlocks around (maxTokens + 1)
    (firstState around request.toReplyRequest prompt (target prompt) sampler) with
    ⟨error | ⟨⟩, after⟩
  · exact congrArg settleReply (Prog.bind_of_error ran)
  · exact congrArg settleReply (Prog.bind_of_ok ran)

/-- Where the client does not stay for the first token, or a token that ends a reply is not in the vocabulary, the
accelerated path ends there. -/
theorem replyBy_ends (eligible : Eligible request.toReplyRequest) {told : Told} {answer : Except ChatError Unit}
    (said : (firstState around request.toReplyRequest prompt (target prompt) sampler).told.say around
      (plainToken around request.toReplyRequest (target prompt)) = (answer, told))
    (ends : answer = .error error ∨ answer = .ok () ∧ ¬EndsInside around ∧ error = .unavailable) :
    replyBy around request none (maxTokens + 1) prompt (target prompt) none sampler true =
      settleReply (.error error, (firstState around request.toReplyRequest prompt (target prompt) sampler).tell told) := by
  obtain ⟨adjusted, is⟩ := adjusts
  rw [replyBy, replyTokens, if_neg (Nat.succ_ne_zero maxTokens), Prog.bind_of_ok (beginReply_ok eligible is), if_pos rfl]
  have first := @sayGreedyToken_eq _ _ _ _ around (firstState around request.toReplyRequest prompt (target prompt) sampler)
    (plainToken around request.toReplyRequest (target prompt))
  rw [said] at first
  refine congrArg settleReply (Prog.bind_of_error ?_)
  rw [greedyBlocks, if_neg (Nat.succ_ne_zero maxTokens), Prog.bind_read]
  rcases ends with rfl | ⟨rfl, outside, rfl⟩
  · exact Prog.bind_of_error first
  · rw [EndsInside] at outside
    push Not at outside
    refine (Prog.bind_of_ok first).trans (Prog.bind_of_error ?_)
    rw [decodeGreedyBlock, Prog.bind_read, if_pos (.inr (.inr (.inr outside)))]
    rfl

end Starting

section Alike

variable (around) (request : ReplyRequest R) (target : List ℕ → List R) (prompt : List ℕ)

/-- The tokens before a token of the plain path. -/
def plainHistory (index : ℕ) : List ℕ := prompt ++
    chain (fun history => plainToken around request (target history)) prompt index

/-- The greedy path does as the plain one: the biases do not fit the vocabulary, the client does not stay for the
first token, or
the tokens that end a reply are in the vocabulary and every other token that is selected while the client stays leads. -/
def RepliesAlike (maxTokens : ℕ) : Prop :=
  (∃ error, adjustLogits around.elementary around.served around.outside.debug request.sampler (target prompt) =
    .error error) ∨ around.gone 0 = true ∨
    EndsInside around ∧ ∀ index, 0 < index → index < maxTokens → (∀ earlier < index, around.gone earlier = false) →
      Leads (maskedLogits around.served.eos (target (plainHistory around request target prompt index)))
        (plainToken around request (target (plainHistory around request target prompt index)))

variable {around request target prompt}

theorem agree_iff (serves : Serves around target) (stays : around.gone 0 = false) (count : ℕ) :
    Agree around (fun history => plainToken around request (target history)) (greedyToken around target)
        (prompt ++ [plainToken around request (target prompt)]) 1 count ↔
      ∀ index, 0 < index → index < count + 1 → (∀ earlier < index, around.gone earlier = false) →
        Leads (maskedLogits around.served.eos (target (plainHistory around request target prompt index)))
          (plainToken around request (target (plainHistory around request target prompt index))) := by
  have leads : ∀ history token, Leads (maskedLogits around.served.eos (target history)) token ↔
      token = greedyToken around target history :=
    fun history token => leads_iff (serves.length history ▸ serves.nonempty)
  constructor
  · rintro agree (_ | index) positive inside heard
    · exact absurd positive (Nat.lt_irrefl 0)
    · rw [leads, plainHistory, append_chain_succ]
      refine agree index (Nat.lt_of_succ_lt_succ inside) fun earlier before => ?_
      rw [Nat.add_comm]
      exact heard (earlier + 1) (Nat.succ_lt_succ before)
  · intro all index inside heard
    have here := all (index + 1) (Nat.succ_pos index) (Nat.succ_lt_succ inside) fun earlier before => ?_
    · rwa [leads, plainHistory, append_chain_succ] at here
    · cases earlier with
      | zero => exact stays
      | succ earlier =>
        have said := heard earlier (Nat.lt_of_succ_lt_succ before)
        rwa [Nat.add_comm] at said

variable {ran : Except ChatError Unit × ReplyState R} {state : ReplyState R}

/-- What says some tokens says others that are said in the same way. -/
theorem Says.congr {tokens tokens' : List ℕ}
    (spoken : Says around ran state tokens) (same : state.told.sayAll around tokens = state.told.sayAll around tokens') :
    Says around ran state tokens' := by
  refine ⟨same ▸ spoken.answer, same ▸ spoken.told, spoken.stopFilter, fun ok => ?_⟩
  have answer := spoken.answer
  rw [ok] at answer
  have said : state.told.sayAll around tokens = (.ok (), (state.told.sayAll around tokens).2) := by rw [answer]
  have tokens_eq := (Told.sayAll_ok said).symm.trans (Told.sayAll_ok (same.symm.trans said))
  rw [← List.append_cancel_left tokens_eq]
  exact spoken.history ok

/-- A run that says its tokens finds the accelerator well. -/
theorem Says.available {tokens : List ℕ}
    (spoken : Says around ran state tokens) : (closeRun around ran).1 ≠ .error .unavailable := by
  obtain ⟨error | ⟨⟩, after⟩ := ran
  · intro unavailable
    have answer : .error error = (state.told.sayAll around tokens).1 := spoken.answer
    have cancelled := @Told.sayAll_cancelled _ _ _ _ around state.told (state.told.sayAll around tokens).2 tokens
      error (by rw [answer])
    rw [cancelled] at unavailable
    cases unavailable
  · exact (blind_finishReply after after ⟨rfl, rfl, rfl⟩).2.2.2

/-- The two paths come to the same exactly if what the plain one selects leads. -/
theorem replyBy_iff {request : GreedyRequest R} (eligible : Eligible request.toReplyRequest)
    {sampler : RequestSamplerState R}
    (idle : Idle (ReplyState.start request.toReplyRequest prompt none sampler)) (serves : Serves around target) (count : ℕ) :
    replyBy around request none (count + 1) prompt (target prompt) none sampler true =
        replyBy around request none (count + 1) prompt (target prompt) none sampler false ↔
      RepliesAlike around request.toReplyRequest target prompt (count + 1) := by
  rw [RepliesAlike]
  cases is : adjustLogits around.elementary around.served around.outside.debug request.sampler (target prompt) with
  | error error =>
    rw [replyBy_error eligible is, replyBy_error eligible is]
    exact iff_of_true rfl (.inl ⟨error, rfl⟩)
  | ok adjusted =>
    have adjusts : ∃ adjusted, adjustLogits around.elementary around.served around.outside.debug request.sampler
      (target prompt) = .ok adjusted := ⟨adjusted, is⟩
    rw [or_iff_right fun ⟨error, fails⟩ => by cases fails]
    obtain ⟨plain, plain_eq, spoken⟩ := @replyBy_plain _ _ _ _ _ _ _ _ sampler count adjusts eligible idle serves
    obtain ⟨told, -, ⟨stays, here, more⟩ | ⟨gone, here⟩⟩ :=
      (firstState around request.toReplyRequest prompt (target prompt) sampler).told.say_cases around
        (plainToken around request.toReplyRequest (target prompt))
    · have stays' : around.gone 0 = false := stays
      rw [or_iff_right (Bool.eq_false_iff.mp stays'), plain_eq]
      by_cases inside : EndsInside around
      · obtain ⟨fast, fast_eq, spoken'⟩ := @replyBy_greedy _ _ _ _ _ _ _ _ sampler count adjusts eligible serves inside
        rw [fast_eq, and_iff_right inside, ← agree_iff serves stays' count]
        constructor
        · intro same
          have sampled := congrArg Outcome.sampledTokens same
          rw [spoken.sampledTokens, spoken'.sampledTokens, Told.sayAll_of_ok here, Told.sayAll_of_ok here] at sampled
          have agree := agree_of_sampledTokens sampled.symm
          rwa [more] at agree
        · intro agree
          have sent : told.sent.length = 1 := more
          have same : told.sayAll around _ = told.sayAll around _ := Agree.sayAll (sent ▸ agree)
          refine settleReply_congr spoken' (spoken.congr ?_)
          rw [Told.sayAll_of_ok here, Told.sayAll_of_ok here, same]
      · rw [replyBy_ends adjusts eligible here (.inr ⟨rfl, inside, rfl⟩)]
        refine iff_of_false (fun same => ?_) fun both => inside both.1
        exact spoken.available (congrArg Outcome.answer same).symm
    · have gone' : around.gone 0 = true := gone
      rw [plain_eq, replyBy_ends adjusts eligible here (.inl rfl)]
      refine iff_of_true ?_ (.inl gone')
      obtain ⟨answer, after⟩ := plain
      have answer_eq : answer = .error .cancelled := spoken.answer.trans (by rw [Told.sayAll_of_error here])
      have told_eq : after.told = told := spoken.told.trans (by rw [Told.sayAll_of_error here])
      subst answer_eq
      exact settleReply_eq told_eq.symm fun _ is => by cases is

end Alike

section Biased

private theorem idle_exp_nonneg (_ : ℚ) : (0 : ℚ) ≤ 1 := zero_le_one

private theorem idle_exp_zero_pos : (0 : ℚ) < 1 := one_pos

private theorem idle_sqrt_nonneg (_ : ℚ) : (0 : ℚ) ≤ 0 := le_refl 0

/-- Functions that no greedy reply asks for. -/
def idleElementary : Elementary ℚ where
  exp _ := 1
  ln _ := 0
  log2 _ := 0
  sqrt _ := 0
  powf _ _ := 1
  toUsize _ := 0
  plus logit bias := logit + bias
  exp_nonneg := idle_exp_nonneg
  exp_zero_pos := idle_exp_zero_pos
  sqrt_nonneg := idle_sqrt_nonneg

/-- Any order will do where nothing reads a grammar. -/
noncomputable def anyOrder : IterationOrder := ⟨fun _ _ items => items.toList, fun _ _ items => items.nodup_toList,
  fun _ _ _ _ => Finset.mem_toList⟩

/-- Three tokens of which the last ends a reply, always with the same logits. -/
noncomputable def steady : Surroundings ℚ Text where
  elementary := idleElementary
  served := ⟨⟨fun token => [UInt8.ofNat (token + 97)], fun _ => [], false⟩, [2]⟩
  outside := texts
  schemaGrammar _ := .error ""
  reasoningEnd := []
  vocabSize := 3
  decode _ := .ok [1, 0, 5]
  gone _ := false
  signalled _ := false
  late _ := false
  order _ := anyOrder
  trialOrder _ _ := anyOrder

/-- A greedy request with some biases. -/
def biasedRequest (logitBias : Option (List (Text × Logit ℚ))) : GreedyRequest ℚ where
  sampler := {
    temperature := some 0, topP := none, topK := none, typicalP := none, minP := none, topNSigma := none, minKeep := none
    ignoreEos := true, logitBias := logitBias, repeatPenalty := none, repeatLastN := none, presencePenalty := none
    frequencyPenalty := none, dryMultiplier := none, dryBase := none, dryAllowedLength := none, dryPenaltyLastN := none
    drySequenceBreakers := none, mirostat := none, mirostatTau := none, mirostatEta := none, adaptiveTarget := none
    adaptiveDecay := none, dynatempRange := none, dynatempExponent := none, xtcProbability := none, xtcThreshold := none
    samplers := none }
  tools := ⟨none, none, true⟩
  stop := none
  tMaxPredictMs := none
  reasoningControl := false
  sessionId := none
  logprobs := none

def metalServing : Serving := ⟨"metal", 1, false, false⟩

theorem serves_steady : Serves steady fun _ => [1, 0, 5] := ⟨fun _ => rfl, fun _ => rfl, by decide⟩

private theorem steady_evaluated : plainToken steady (biasedRequest (some [(['1'], some 2)])).toReplyRequest [1, 0, 5] = 1 ∧
    Leads (maskedLogits steady.served.eos ([1, 0, 5] : List ℚ)) 0 ∧
    (adjustLogits steady.elementary steady.served steady.outside.debug
      (biasedRequest (some [(['1'], some 2)])).sampler ([1, 0, 5] : List ℚ)).isOk = true := by
  decide +kernel

theorem plainToken_biased : plainToken steady (biasedRequest (some [(['1'], some 2)])).toReplyRequest [1, 0, 5] = 1 :=
  steady_evaluated.1

theorem leads_steady : Leads (maskedLogits steady.served.eos ([1, 0, 5] : List ℚ)) 0 :=
  steady_evaluated.2.1

/-- What is behind the prompt, for a sampler that nothing draws from. -/
def idleSampler : RequestSamplerState ℚ := .new (biasedRequest none).sampler fun _ => 0

end Biased

/-- The greedy path comes to what the plain one does exactly if what the plain one selects leads. -/
theorem greedy_reply_iff {request : GreedyRequest R} {serving : Serving} {params : Option (SamplingParams R)}
    {grammar : Option GrammarMatcher}
    (greedy : gpuGreedy serving request params grammar = true) (serves : Serves around target) {maxTokens : ℕ}
    (positive : 0 < maxTokens)
    (sampler : RequestSamplerState R) :
    generateReply around serving request params maxTokens prompt (target prompt) grammar sampler =
        replyBy around request params maxTokens prompt (target prompt) grammar sampler false ↔
      RepliesAlike around request.toReplyRequest target prompt maxTokens := by
  obtain ⟨no_params, eligible, idle⟩ := @eligible_of_gpuGreedy R request serving params grammar prompt sampler greedy
  have no_grammar : grammar = none := idle.grammar
  subst no_params no_grammar
  obtain ⟨count, rfl⟩ : ∃ count, maxTokens = count + 1 := ⟨maxTokens - 1, by omega⟩
  rw [generateReply, greedy]
  exact replyBy_iff eligible idle serves count

theorem greedy_reply_iff_steady : gpuGreedy metalServing (biasedRequest none) none none = true ∧
    (generateReply steady metalServing (biasedRequest none) none 20 [0] [1, 0, 5] none idleSampler =
        replyBy steady (biasedRequest none) none 20 [0] [1, 0, 5] none idleSampler false ↔
      RepliesAlike steady (biasedRequest none).toReplyRequest (fun _ => [1, 0, 5]) [0] 20) :=
  ⟨rfl, greedy_reply_iff rfl serves_steady (by decide) idleSampler⟩

/-- A bias that selects every token of the plain path selects only the first one of the greedy path. -/
theorem biased_reply_differs : gpuGreedy metalServing (biasedRequest (some [(['1'], some 2)])) none none = true ∧
    generateReply steady metalServing (biasedRequest (some [(['1'], some 2)])) none 2 [0] [1, 0, 5] none idleSampler ≠
      replyBy steady (biasedRequest (some [(['1'], some 2)])) none 2 [0] [1, 0, 5] none idleSampler false := by
  have greedy : gpuGreedy metalServing (biasedRequest (some [(['1'], some 2)])) none none = true := rfl
  obtain ⟨-, eligible, idle⟩ := @eligible_of_gpuGreedy ℚ _ metalServing none none [0] idleSampler greedy
  refine ⟨greedy, fun same => ?_⟩
  rw [generateReply, greedy] at same
  rcases (replyBy_iff eligible idle serves_steady 1).mp same with ⟨error, fails⟩ | gone | ⟨-, leads⟩
  · have adjusts := steady_evaluated.2.2
    rw [fails] at adjusts
    cases adjusts
  · cases gone
  · have second := leads 1 (by decide) (by decide) fun _ _ => rfl
    rw [plainToken_biased] at second
    cases second.unique leads_steady

end Muser.Reply
