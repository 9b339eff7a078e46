import Muser.Reply.Filtering
import Muser.Reply.Greedy

/-! # Block by block and token by token

Both paths say the tokens of a chain: the first is selected in the same way, and each after it is a
function of the tokens before. What is said of a chain depends on its tokens only, so the paths agree as
long as they select the same tokens.
-/

namespace Muser.Reply

open Text Gbnf Atem

/-- The tokens that are selected behind some others. -/
def chain (choose : List ℕ → ℕ) : List ℕ → ℕ → List ℕ
  | _, 0 => []
  | history, count + 1 => choose history :: chain choose (history ++ [choose history]) count

theorem chain_add (choose : List ℕ → ℕ) (history : List ℕ) (count more : ℕ) :
    chain choose history (count + more) = chain choose history count ++
      chain choose (history ++ chain choose history count) more := by
  induction count generalizing history with
  | zero => rw [Nat.zero_add, chain, List.nil_append, List.append_nil]
  | succ count ih => rw [Nat.succ_add, chain, ih, chain, List.cons_append, List.append_assoc, List.singleton_append]

variable {R Value : Type} [Field R] [LinearOrder R] {around : Surroundings R Value}

section Telling

/-- What has been said of a reply. -/
structure Told where
  detokenizer : StreamingDetokenizer
  text : Text
  sampledTokens : List ℕ
  completionTokens : ℕ
  sent : List Fragment

variable (around)

/-- A token is said, and its piece is sent. -/
def Told.say (told : Told) (token : ℕ) : Except ChatError Unit × Told :=
  let (piece, detokenizer) := told.detokenizer.pushToken around.served.tokenizer token
  let said : Told := ⟨detokenizer, told.text ++ piece, told.sampledTokens ++ [token], told.completionTokens + 1, told.sent⟩
  if around.gone told.sent.length then (.error .cancelled, said)
  else (.ok (), { said with sent := said.sent ++ [(piece, some token)] })

/-- Tokens are said until the client has gone. -/
def Told.sayAll (told : Told) : List ℕ → Except ChatError Unit × Told
  | [] => (.ok (), told)
  | token :: tokens =>
    match told.say around token with
    | (.ok (), told) => told.sayAll tokens
    | (.error error, told) => (.error error, told)

variable {around} {told after : Told} {token : ℕ} {tokens : List ℕ} {error : ChatError}

/-- A token is said, and the client gets it or has gone. -/
theorem Told.say_cases (around : Surroundings R Value) (told : Told) (token : ℕ) :
    ∃ after, after.sampledTokens = told.sampledTokens ++ [token] ∧
      (around.gone told.sent.length = false ∧ told.say around token = (.ok (), after) ∧
        after.sent.length = told.sent.length + 1 ∨
        around.gone told.sent.length = true ∧ told.say around token = (.error .cancelled, after)) := by
  rw [say]
  dsimp only
  cases around.gone told.sent.length with
  | true => exact ⟨_, rfl, .inr ⟨rfl, rfl⟩⟩
  | false =>
    refine ⟨_, rfl, .inl ⟨rfl, rfl, ?_⟩⟩
    exact List.length_append

theorem Told.sayAll_of_ok (said : told.say around token = (.ok (), after)) :
    told.sayAll around (token :: tokens) = after.sayAll around tokens := by
  rw [sayAll, said]

theorem Told.sayAll_of_error (said : told.say around token = (.error error, after)) :
    told.sayAll around (token :: tokens) = (.error error, after) := by
  rw [sayAll, said]

/-- Tokens are said in two parts; a failure in the first is the end. -/
theorem Told.sayAll_append (more : List ℕ) :
    (∀ after, told.sayAll around tokens = (.ok (), after) → told.sayAll around (tokens ++ more) = after.sayAll around more) ∧
      ∀ error after, told.sayAll around tokens = (.error error, after) →
        told.sayAll around (tokens ++ more) = (.error error, after) := by
  induction tokens generalizing told with
  | nil =>
    rw [sayAll]
    constructor
    · rintro after ⟨⟩
      rfl
    · rintro error after ⟨⟩
  | cons token tokens ih =>
    obtain ⟨next, -, ⟨-, here, -⟩ | ⟨-, here⟩⟩ := told.say_cases around token
    · rw [List.cons_append, sayAll_of_ok here, sayAll_of_ok here]
      exact ih
    · rw [List.cons_append, sayAll_of_error here, sayAll_of_error here]
      constructor
      · rintro after ⟨⟩
      · exact fun _ _ said => said

/-- What has been said stays said. -/
theorem Told.sayAll_sampledTokens : told.sampledTokens <+: (told.sayAll around tokens).2.sampledTokens := by
  induction tokens generalizing told with
  | nil => exact List.prefix_rfl
  | cons token tokens ih =>
    obtain ⟨next, sampled, ⟨-, here, -⟩ | ⟨-, here⟩⟩ := told.say_cases around token
    · rw [sayAll_of_ok here]
      exact (List.prefix_append _ [token]).trans (sampled ▸ ih)
    · rw [sayAll_of_error here]
      exact ⟨[token], sampled.symm⟩

/-- Where the client stays all the tokens are said. -/
theorem Told.sayAll_ok (said : told.sayAll around tokens = (.ok (), after)) :
    after.sampledTokens = told.sampledTokens ++ tokens := by
  induction tokens generalizing told with
  | nil =>
    cases said
    exact (List.append_nil _).symm
  | cons token tokens ih =>
    obtain ⟨next, sampled, ⟨-, here, -⟩ | ⟨-, here⟩⟩ := told.say_cases around token
    · rw [sayAll_of_ok here] at said
      rw [ih said, sampled, List.append_assoc, List.singleton_append]
    · rw [sayAll_of_error here] at said
      cases said

theorem Told.sayAll_cancelled (said : told.sayAll around tokens = (.error error, after)) : error = .cancelled := by
  induction tokens generalizing told with
  | nil => cases said
  | cons token tokens ih =>
    obtain ⟨next, -, ⟨-, here, -⟩ | ⟨-, here⟩⟩ := told.say_cases around token
    · exact ih ((sayAll_of_ok here).symm.trans said)
    · rw [sayAll_of_error here] at said
      cases said
      rfl

theorem Told.sayAll_first : told.sampledTokens ++ [token] <+: (told.sayAll around (token :: tokens)).2.sampledTokens := by
  obtain ⟨next, sampled, ⟨-, here, -⟩ | ⟨-, here⟩⟩ := told.say_cases around token
  · rw [sayAll_of_ok here, ← sampled]
    exact sayAll_sampledTokens
  · rw [sayAll_of_error here, sampled]

theorem append_chain_succ (choose : List ℕ → ℕ) (history : List ℕ) (count : ℕ) :
    history ++ chain choose history (count + 1) = history ++ [choose history] ++
      chain choose (history ++ [choose history]) count := by
  rw [chain, List.append_assoc, List.singleton_append]

/-- Two ways to select tokens agree behind some, as long as the client stays. -/
def Agree (around : Surroundings R Value) (choose choose' : List ℕ → ℕ) (history : List ℕ) (sent count : ℕ) : Prop :=
  ∀ index < count, (∀ earlier < index, around.gone (sent + earlier) = false) →
    choose (history ++ chain choose history index) = choose' (history ++ chain choose history index)

theorem agree_succ {choose choose' : List ℕ → ℕ} {history : List ℕ} {sent count : ℕ} :
    Agree around choose choose' history sent (count + 1) ↔ choose history = choose' history ∧
      (around.gone sent = false → Agree around choose choose' (history ++ [choose history]) (sent + 1) count) := by
  constructor
  · intro agree
    constructor
    · have now := agree 0 (Nat.succ_pos count) fun earlier before => absurd before (Nat.not_lt_zero earlier)
      rwa [chain, List.append_nil] at now
    · intro stays index inside heard
      have later := agree (index + 1) (Nat.succ_lt_succ inside) fun earlier before => ?_
      · rwa [append_chain_succ] at later
      · cases earlier with
        | zero => exact stays
        | succ earlier =>
          have said := heard earlier (Nat.lt_of_succ_lt_succ before)
          rwa [Nat.add_assoc, Nat.add_comm 1] at said
  · rintro ⟨now, later⟩ (_ | index) inside heard
    · rw [chain, List.append_nil]
      exact now
    · rw [append_chain_succ]
      refine later (heard 0 (Nat.succ_pos index)) index (Nat.lt_of_succ_lt_succ inside) fun earlier before => ?_
      rw [Nat.add_assoc, Nat.add_comm 1]
      exact heard (earlier + 1) (Nat.succ_lt_succ before)

variable {choose choose' : List ℕ → ℕ} {history : List ℕ} {count : ℕ}

/-- Where two ways agree they are said in one way. -/
theorem Agree.sayAll (agree : Agree around choose choose' history told.sent.length count) :
    told.sayAll around (chain choose history count) = told.sayAll around (chain choose' history count) := by
  induction count generalizing history told with
  | zero => rfl
  | succ count ih =>
    obtain ⟨same, later⟩ := agree_succ.mp agree
    rw [chain, chain, ← same]
    obtain ⟨next, -, ⟨stays, here, more⟩ | ⟨-, here⟩⟩ := told.say_cases around (choose history)
    · rw [Told.sayAll_of_ok here, Told.sayAll_of_ok here]
      exact ih (more ▸ later stays)
    · rw [Told.sayAll_of_error here, Told.sayAll_of_error here]

/-- Where the same tokens are said the two ways agree. -/
theorem agree_of_sampledTokens (same : (told.sayAll around (chain choose history count)).2.sampledTokens =
    (told.sayAll around (chain choose' history count)).2.sampledTokens) :
      Agree around choose choose' history told.sent.length count := by
  induction count generalizing history told with
  | zero => exact fun index inside => absurd inside (Nat.not_lt_zero index)
  | succ count ih =>
    rw [chain, chain] at same
    have alike : choose history = choose' history := by
      have first := @Told.sayAll_first _ _ _ _ around told (choose history)
        (chain choose (history ++ [choose history]) count)
      have first' := @Told.sayAll_first _ _ _ _ around told (choose' history)
        (chain choose' (history ++ [choose' history]) count)
      rw [same] at first
      have one := (List.prefix_of_prefix_length_le first first'
        (by rw [List.length_append, List.length_append]; rfl)).eq_of_length
        (by rw [List.length_append, List.length_append]; rfl)
      exact (List.cons.inj (List.append_cancel_left one)).1
    refine agree_succ.mpr ⟨alike, fun stays => ?_⟩
    rw [← alike] at same
    obtain ⟨next, -, ⟨-, here, more⟩ | ⟨gone, -⟩⟩ := told.say_cases around (choose history)
    · rw [Told.sayAll_of_ok here, Told.sayAll_of_ok here] at same
      exact more ▸ ih same
    · exact absurd gone (Bool.eq_false_iff.mp stays)

end Telling

section Accelerated

def ReplyState.told (state : ReplyState R) : Told :=
  ⟨state.detokenizer, state.text, state.sampledTokens, state.completionTokens, state.sent⟩

/-- A state in which something else has been said. -/
def ReplyState.tell (state : ReplyState R) (told : Told) : ReplyState R :=
  { state with
    detokenizer := told.detokenizer
    text := told.text
    sampledTokens := told.sampledTokens
    completionTokens := told.completionTokens
    sent := told.sent }

/-- The model is a function from the tokens so far to the logits of the vocabulary. -/
structure Serves (around : Surroundings R Value) (target : List ℕ → List R) : Prop where
  decode : ∀ history, around.decode history = .ok (target history)
  length : ∀ history, (target history).length = around.vocabSize
  nonempty : 0 < around.vocabSize

variable {state : ReplyState R} {target : List ℕ → List R} {told : Told}

theorem sayGreedyToken_eq (token : ℕ) :
    sayGreedyToken around token state = ((state.told.say around token).1, state.tell (state.told.say around token).2) := by
  rw [sayGreedyToken]
  simp only [Prog.bind_read, Prog.bind_modify, send]
  by_cases gone : around.gone state.sent.length = true
  · have gone' : around.gone state.told.sent.length = true := gone
    rw [Told.say, if_pos gone]
    dsimp only
    rw [if_pos gone']
    rfl
  · have gone' : ¬around.gone state.told.sent.length = true := gone
    rw [Told.say, if_neg gone]
    dsimp only
    rw [if_neg gone']
    rfl

/-- The token that the reduction finds behind some others. -/
def greedyToken (around : Surroundings R Value) (target : List ℕ → List R) (history : List ℕ) : ℕ :=
  greedyArgmax (target history) around.served.eos

theorem greedyToken_lt (serves : Serves around target) (history : List ℕ) :
    greedyToken around target history < around.vocabSize := by
  have leads := @greedyArgmax_leads R _ (target history) around.served.eos (serves.length history ▸ serves.nonempty)
  have inside := leads.1
  rw [lookedAt, length_maskedLogits, serves.length] at inside
  exact Nat.lt_of_lt_of_le inside (Nat.min_le_left _ _)

/-- A block finds a token behind those that it has taken, and says it unless it is the last. -/
theorem streamTokens_succ (serves : Serves around target) (start consumed : List ℕ) (remaining : ℕ) :
    streamTokens around around.served.eos start (sayGreedyToken around) (remaining + 1) consumed state =
      if remaining = 0 then (.ok ⟨consumed, greedyToken around target (start ++ consumed), none⟩, state)
      else
        match sayGreedyToken around (greedyToken around target (start ++ consumed)) state with
        | (.ok (), state) => streamTokens around around.served.eos start (sayGreedyToken around) remaining
          (consumed ++ [greedyToken around target (start ++ consumed)]) state
        | (.error error, state) => (.ok ⟨consumed, greedyToken around target (start ++ consumed), some error⟩, state) := by
  have inside := greedyToken_lt serves (start ++ consumed)
  rw [streamTokens, serves.decode, Prog.bind_lift_ok, ← greedyToken, if_neg (Nat.not_le_of_lt inside)]
  cases remaining with
  | zero => rfl
  | succ remaining => rfl

/-- A block says its chain, and keeps a failure of the client for its end. -/
theorem streamTokens_spoken (serves : Serves around target) (start consumed : List ℕ) (remaining : ℕ)
    {answer : Except ChatError Unit}
    (said : state.told.sayAll around (chain (greedyToken around target) (start ++ consumed) remaining) = (answer, told)) :
    ∃ block, streamTokens around around.served.eos start (sayGreedyToken around) (remaining + 1) consumed state =
      (.ok block, state.tell told) ∧ (∀ error, answer = .error error → block.cancelled = some error) ∧
      (answer = .ok () → block = ⟨consumed ++ chain (greedyToken around target) (start ++ consumed) remaining,
        greedyToken around target (start ++
          (consumed ++ chain (greedyToken around target) (start ++ consumed) remaining)), none⟩) := by
  induction remaining generalizing consumed state with
  | zero =>
    cases said
    rw [streamTokens_succ serves, if_pos rfl]
    refine ⟨_, rfl, fun _ is => (by cases is), fun _ => ?_⟩
    rw [chain, List.append_nil]
  | succ remaining ih =>
    rw [streamTokens_succ serves, if_neg (Nat.succ_ne_zero remaining), sayGreedyToken_eq]
    rw [chain] at said ⊢
    obtain ⟨next, -, ⟨-, here, -⟩ | ⟨-, here⟩⟩ := state.told.say_cases around (greedyToken around target (start ++ consumed))
    · rw [Told.sayAll_of_ok here, List.append_assoc] at said
      obtain ⟨block, ran, cancelled, is⟩ :=
        @ih (state.tell next) (consumed ++ [greedyToken around target (start ++ consumed)]) said
      rw [here]
      refine ⟨block, ran, cancelled, fun ok => ?_⟩
      rw [is ok, List.append_assoc, List.append_assoc]
      rfl
    · rw [Told.sayAll_of_error here] at said
      cases said
      rw [here]
      exact ⟨_, rfl, fun _ is => (by cases is; rfl), fun ok => by cases ok⟩

/-- Whether the tokens that end a reply are in the vocabulary. -/
def EndsInside (around : Surroundings R Value) : Prop := ∀ token ∈ around.served.eos, token < around.vocabSize

/-- A block whose tokens the accelerator takes. -/
theorem decodeGreedyBlock_eq (inside : EndsInside around) {first count : ℕ} (first_inside : first < around.vocabSize)
    (few : count + 1 ≤ maxDflashBlock) {block : GreedyBlock} {after : ReplyState R}
    (ran : streamTokens around around.served.eos state.history (sayGreedyToken around) (count + 1) [first] state =
      (.ok block, after)) :
    decodeGreedyBlock around first (count + 1) around.served.eos (sayGreedyToken around) state =
      (.ok block, { after with history := if block.cancelled.isSome then [] else state.history ++ block.consumed }) := by
  have taken : ¬(count + 1 = 0 ∨ maxDflashBlock < count + 1 ∨ around.vocabSize ≤ first ∨ ∃ token ∈ around.served.eos,
      around.vocabSize ≤ token) := by
    rintro (none_ | many | outside | ⟨token, mem, outside⟩)
    · exact Nat.succ_ne_zero count none_
    · exact Nat.not_lt_of_le few many
    · exact Nat.not_le_of_lt first_inside outside
    · exact Nat.not_le_of_lt (inside token mem) outside
  rw [decodeGreedyBlock, Prog.bind_read, if_neg taken]
  exact (Prog.bind_of_ok ran).trans rfl

/-- A block whose tokens are all said is followed by the others; one that the client does not stay for is the last. -/
theorem greedyBlocks_succ (serves : Serves around target) (inside : EndsInside around) {count size : ℕ}
    {answer : Except ChatError Unit}
    (first_inside : state.next < around.vocabSize) (whole : min (count + 1) maxDflashBlock = size + 1)
    (said : state.told.sayAll around (state.next :: chain (greedyToken around target) (state.history ++ [state.next]) size) =
      (answer, told)) :
    ∃ after, after.told = told ∧ after.stopFilter = state.stopFilter ∧
      (∀ error, answer = .error error → greedyBlocks around (count + 1) state = (.error error, after)) ∧
      (answer = .ok () → greedyBlocks around (count + 1) state = greedyBlocks around (count - size) after ∧
        after.history = state.history ++ [state.next] ++ chain (greedyToken around target)
          (state.history ++ [state.next]) size ∧
        after.next = greedyToken around target after.history) := by
  rw [greedyBlocks, if_neg (Nat.succ_ne_zero count), Prog.bind_read, whole, Nat.add_sub_add_right]
  have first := @sayGreedyToken_eq _ _ _ _ around state state.next
  obtain ⟨next, -, ⟨-, here, -⟩ | ⟨-, here⟩⟩ := state.told.say_cases around state.next
  · rw [here] at first
    rw [Told.sayAll_of_ok here] at said
    obtain ⟨⟨consumed, last, cancelled⟩, ran, failed, is⟩ :=
      @streamTokens_spoken _ _ _ _ _ (state.tell next) _ _ serves state.history [state.next] size _ said
    have decoded := @decodeGreedyBlock_eq _ _ _ _ _ (state.tell next) inside _ _ first_inside
      (whole ▸ Nat.min_le_right _ _) _ _ ran
    rw [Prog.bind_of_ok first, Prog.bind_of_ok decoded]
    cases answer with
    | error error =>
      obtain rfl : cancelled = some error := failed error rfl
      refine ⟨{ (state.tell next).tell told with history := [] }, rfl, rfl, fun _ is => ?_, fun ok => by cases ok⟩
      cases is
      rfl
    | ok =>
      cases is rfl
      rw [List.append_assoc]
      exact ⟨{ (state.tell next).tell told with history := _, next := _ }, rfl, rfl, fun _ is => (by cases is),
        fun _ => ⟨rfl, rfl, rfl⟩⟩
  · rw [here] at first
    rw [Told.sayAll_of_error here] at said
    cases said
    rw [Prog.bind_of_error first]
    exact ⟨state.tell told, rfl, rfl, fun _ is => (by cases is; rfl), fun ok => by cases ok⟩

/-- What a path that says some tokens comes to. -/
structure Says (around : Surroundings R Value) (ran : Except ChatError Unit × ReplyState R) (state : ReplyState R)
    (tokens : List ℕ) : Prop where
  answer : ran.1 = (state.told.sayAll around tokens).1
  told : ran.2.told = (state.told.sayAll around tokens).2
  stopFilter : ran.2.stopFilter = state.stopFilter
  history : ran.1 = .ok () → ran.2.history = state.history ++ tokens

/-- The blocks say one chain, from the token that is next. -/
theorem greedyBlocks_says (serves : Serves around target) (inside : EndsInside around) (count : ℕ) (state : ReplyState R)
    (first_inside : state.next < around.vocabSize) :
    Says around (greedyBlocks around (count + 1) state) state
      (state.next :: chain (greedyToken around target) (state.history ++ [state.next]) count) := by
  induction count using Nat.strongRecOn generalizing state with
  | _ count ih =>
  obtain ⟨size, size_le, whole⟩ : ∃ size ≤ count, min (count + 1) maxDflashBlock = size + 1 := by
    refine ⟨min count 15, Nat.min_le_left _ _, ?_⟩
    rw [maxDflashBlock]
    lia
  have parts : state.next :: chain (greedyToken around target) (state.history ++ [state.next]) count =
      (state.next :: chain (greedyToken around target) (state.history ++ [state.next]) size) ++
        chain (greedyToken around target)
        (state.history ++ [state.next] ++ chain (greedyToken around target) (state.history ++ [state.next]) size)
          (count - size) := by
    rw [List.cons_append, ← chain_add, Nat.add_sub_cancel' size_le]
  rw [parts]
  rcases said : state.told.sayAll around (state.next :: chain (greedyToken around target) (state.history ++
    [state.next]) size) with
    ⟨error | ⟨⟩, told⟩
  · obtain ⟨after, told', filter, failed, -⟩ := greedyBlocks_succ serves inside first_inside whole said
    have all := (Told.sayAll_append (chain (greedyToken around target)
      (state.history ++ [state.next] ++ chain (greedyToken around target) (state.history ++ [state.next]) size)
        (count - size))).2 _ _ said
    rw [failed error rfl]
    exact ⟨by rw [all], by rw [all, told'], filter, fun stays => by cases stays⟩
  · obtain ⟨after, told', filter, -, goes⟩ := greedyBlocks_succ serves inside first_inside whole said
    obtain ⟨ran, history, next⟩ := goes rfl
    have all := (Told.sayAll_append (chain (greedyToken around target)
      (state.history ++ [state.next] ++ chain (greedyToken around target) (state.history ++ [state.next]) size)
        (count - size))).1 _ said
    rw [ran]
    rcases left : count - size with _ | more
    · rw [left] at all
      rw [greedyBlocks, if_pos rfl]
      refine ⟨by rw [all]; rfl, by rw [all]; exact told', filter, fun _ => ?_⟩
      rw [chain, List.append_nil, ← List.singleton_append, ← List.append_assoc]
      exact history
    · obtain ⟨answer, told'', filter', history'⟩ := ih more (by lia) after (next ▸ greedyToken_lt serves _)
      have goes : after.next :: chain (greedyToken around target) (after.history ++ [after.next]) more =
          chain (greedyToken around target) after.history (more + 1) := by rw [chain, next]
      rw [goes, told', history] at answer told''
      rw [goes, history] at history'
      rw [left] at all
      refine ⟨by rw [all]; exact answer, by rw [all]; exact told'', filter'.trans filter, fun stays => ?_⟩
      rw [history' stays, List.append_assoc, List.append_assoc, List.append_assoc]
      rfl

end Accelerated

section TokenByToken

/-- A request that has no use for what the greedy path leaves out. -/
structure Eligible (request : ReplyRequest R) : Prop where
  ignoreEos : request.sampler.ignoreEos = true
  reasoning : request.reasoningControl = false
  timeless : request.tMaxPredictMs.any (decide <| 0 < ·) = false

/-- A state in which nothing looks at a token but the detokenizer. -/
structure Idle (state : ReplyState R) : Prop where
  grammar : state.grammar = none
  calls : state.atemCompletion = none
  forced : state.forcedReasoning = []
  stops : state.stopFilter.stops = []
  pending : state.stopFilter.pending = []
  holds : state.stopFilter.holdBytes = 0

/-- The token that the plain path selects for some logits. -/
def plainToken (around : Surroundings R Value) (request : ReplyRequest R) (logits : List R) : ℕ :=
  argmax ((adjustLogits around.elementary around.served around.outside.debug request.sampler logits).toOption.getD [])

variable {request : ReplyRequest R} {target : List ℕ → List R} {state : ReplyState R} {told : Told}

theorem push_idle {filter : StopFilter} (stops : filter.stops = []) (pending : filter.pending = [])
    (holds : filter.holdBytes = 0)
    (piece : Text) : filter.push piece = (piece, false, filter) := by
  obtain ⟨stops, pending, holdBytes, matchedStop⟩ := filter
  dsimp only at stops pending holds
  subst stops pending holds
  have whole := StopFilter.takeBytes_append piece [] 0
  rw [Nat.add_zero, List.append_nil, StopFilter.takeBytes, List.append_nil] at whole
  rw [StopFilter.push]
  dsimp only
  rw [List.nil_append, Nat.sub_zero, whole, List.drop_length]
  rfl

theorem send_gone {fragment : Fragment} (gone : around.gone state.sent.length = true) :
    send around fragment state = (.error .cancelled, state) := by
  rw [send, if_pos gone]

theorem send_stays {fragment : Fragment} (stays : around.gone state.sent.length = false) :
    send around fragment state = (.ok (), { state with sent := state.sent ++ [fragment] }) := by
  rw [send, if_neg (Bool.eq_false_iff.mp stays)]

theorem overtime_eligible (eligible : Eligible request) (index : ℕ) (piece : Text) :
    overtime around request index piece = false := by
  rw [overtime, eligible.timeless, Bool.and_false, Bool.false_and]

/-- The greatest of the adjusted logits comes next. -/
theorem selectNext_idle (eligible : Eligible request) (grammar : state.grammar = none)
    (forced : state.forcedReasoning = []) (index : ℕ)
    {logits : List R} {adjusted : List (Logit R)}
    (adjusts : adjustLogits around.elementary around.served around.outside.debug request.sampler logits = .ok adjusted) :
    selectNext around request none index logits state =
      (.ok (), { state with next := plainToken around request logits, forcedReasoning := [] }) := by
  have quiet : takeForcedReasoningToken around [] state.reasoningClosed false = (none, []) := by
    rw [takeForcedReasoningToken]
    cases state.reasoningClosed <;> rfl
  rw [selectNext, eligible.reasoning, Bool.false_and, forced, quiet]
  dsimp only
  rw [grammar, sampleOrArgmax, plainToken, adjusts]
  rfl

/-- A turn says its token. -/
theorem turn_run (eligible : Eligible request) (idle : Idle state) (serves : Serves around target) (maxTokens index : ℕ)
    (adjusts : ∃ adjusted, adjustLogits around.elementary around.served around.outside.debug request.sampler
      (target (state.history ++ [state.next])) = .ok adjusted) :
    ∃ after, after.stopFilter = state.stopFilter ∧
      (state.told.say around state.next = (.error .cancelled, after.told) ∧
          turn around request none maxTokens index state = (.error .cancelled, after) ∨
        state.told.say around state.next = (.ok (), after.told) ∧
          turn around request none maxTokens index state =
            (.ok (if index + 1 < maxTokens then none else some .limit), after) ∧
          after.history = state.history ++ [state.next] ∧ Idle after ∧
          (index + 1 < maxTokens → after.next = plainToken around request (target after.history))) := by
  obtain ⟨adjusted, adjusts⟩ := adjusts
  rw [turn]
  simp only [Prog.bind_modify, Prog.bind_read, eligible.ignoreEos, idle.grammar, idle.calls, idle.forced,
    readToken, readPiece,
    Prog.bind_lift_ok, push_idle idle.stops idle.pending idle.holds, overtime_eligible eligible, Bool.not_true,
      Bool.false_and,
    Bool.false_or, Bool.and_false, Bool.false_eq_true, if_false, ite_self, serves.decode]
  rw [Told.say]
  dsimp only
  by_cases gone : around.gone state.sent.length = true
  · have gone' : around.gone state.told.sent.length = true := gone
    rw [if_pos gone']
    refine ⟨_, ?_, .inl ⟨?_, Prog.bind_of_error (send_gone (by exact gone))⟩⟩
    · rfl
    · rfl
  · have gone' : ¬around.gone state.told.sent.length = true := gone
    have stays : around.gone state.sent.length = false := Bool.eq_false_iff.mpr gone
    rw [if_neg gone']
    by_cases more : index + 1 < maxTokens
    · simp only [if_pos more]
      refine ⟨_, ?_, .inr ⟨?_, (Prog.bind_of_ok (send_stays (by exact stays))).trans
        (Prog.bind_of_ok (selectNext_idle eligible (by rfl) (by rfl) _ adjusts)), ?_⟩⟩
      · rfl
      · rfl
      · exact ⟨rfl, ⟨rfl, rfl, rfl, idle.stops, idle.pending, idle.holds⟩, fun _ => rfl⟩
    · simp only [if_neg more]
      refine ⟨_, ?_, .inr ⟨?_, (Prog.bind_of_ok (send_stays (by exact stays))).trans rfl, ?_⟩⟩
      · rfl
      · rfl
      · exact ⟨rfl, ⟨rfl, rfl, rfl, idle.stops, idle.pending, idle.holds⟩, fun less => absurd less more⟩

/-- The turns say one chain, from the token that is next. -/
theorem turns_says (eligible : Eligible request) (serves : Serves around target)
    (adjusts : ∀ history, ∃ adjusted,
      adjustLogits around.elementary around.served around.outside.debug request.sampler (target history) = .ok adjusted)
    (maxTokens count index : ℕ) (rest : index + (count + 1) = maxTokens) (state : ReplyState R) (idle : Idle state) :
    ∃ ran, turns around request none maxTokens (count + 1) index state = (ran.1.map fun _ => Ending.limit, ran.2) ∧
      Says around ran state
        (state.next :: chain (fun history => plainToken around request (target history)) (state.history ++
          [state.next]) count) := by
  induction count generalizing index state with
  | zero =>
    rw [chain]
    obtain ⟨after, filter, ⟨here, ran⟩ | ⟨here, ran, history, -, -⟩⟩ :=
      turn_run eligible idle serves maxTokens index (adjusts _)
    · refine ⟨(.error .cancelled, after), Prog.bind_of_error ran, ?_⟩
      exact ⟨by rw [Told.sayAll_of_error here], by rw [Told.sayAll_of_error here], filter, fun ok => by cases ok⟩
    · rw [if_neg (by lia)] at ran
      refine ⟨(.ok (), after), Prog.bind_of_ok ran, ?_⟩
      exact ⟨by rw [Told.sayAll_of_ok here]; rfl, by rw [Told.sayAll_of_ok here]; rfl, filter, fun _ => history⟩
  | succ count ih =>
    obtain ⟨after, filter, ⟨here, ran⟩ | ⟨here, ran, history, idle', next⟩⟩ :=
      turn_run eligible idle serves maxTokens index (adjusts _)
    · refine ⟨(.error .cancelled, after), Prog.bind_of_error ran, ?_⟩
      exact ⟨by rw [Told.sayAll_of_error here], by rw [Told.sayAll_of_error here], filter, fun ok => by cases ok⟩
    · rw [if_pos (by lia)] at ran
      obtain ⟨ran', is, spoken⟩ := ih (index + 1) (by lia) after idle'
      refine ⟨ran', (Prog.bind_of_ok ran).trans is, ?_⟩
      rw [next (by lia), history] at spoken
      obtain ⟨answer, told, filter', history'⟩ := spoken
      refine ⟨by rw [Told.sayAll_of_ok here]; exact answer,
        by rw [Told.sayAll_of_ok here]; exact told, filter'.trans filter, fun ok => ?_⟩
      rw [history' ok, history, List.append_assoc]
      rfl

end TokenByToken

section Ending

variable {α β : Type}

/-- States that look alike to the client and leave the same in the session. -/
structure Alike (state state' : ReplyState R) : Prop where
  told : state.told = state'.told
  stopFilter : state.stopFilter = state'.stopFilter
  history : state.history = state'.history

/-- A program that does not tell alike states apart, selects no token and fails only where the client has gone. -/
def Blind (program : Prog (ReplyState R) ChatError α) : Prop :=
  ∀ state state', Alike state state' → (program state).1 = (program state').1 ∧ Alike (program state).2 (program state').2 ∧
    (program state).2.sampledTokens = state.sampledTokens ∧ (program state).1 ≠ .error .unavailable

omit [Field R] [LinearOrder R] in
theorem Blind.bind {program : Prog (ReplyState R) ChatError α} {next : α → Prog (ReplyState R) ChatError β}
    (blind : Blind program) (blind' : ∀ value, Blind (next value)) : Blind (program >>= next) := by
  intro state state' alike
  obtain ⟨same, alike', sampled, available⟩ := blind state state' alike
  cases ran : program state with
  | mk answer after =>
    cases ran' : program state' with
    | mk answer' after' =>
      rw [ran] at sampled available
      rw [ran, ran'] at same alike'
      cases same
      cases answer with
      | ok value =>
        rw [Prog.bind_of_ok ran, Prog.bind_of_ok ran']
        obtain ⟨same', alike'', sampled', available'⟩ := blind' value after after' alike'
        exact ⟨same', alike'', sampled'.trans sampled, available'⟩
      | error error =>
        rw [Prog.bind_of_error ran, Prog.bind_of_error ran']
        exact ⟨rfl, alike', sampled, fun is => available (congrArg _ (Except.error.inj is))⟩

omit [Field R] [LinearOrder R] in
theorem blind_read {next : ReplyState R → Prog (ReplyState R) ChatError α} (blind : ∀ state, Blind (next state))
    (same : ∀ state state', Alike state state' → next state = next state') : Blind (Prog.read >>= next) := by
  intro state state' alike
  rw [Prog.bind_read, Prog.bind_read, same state state' alike]
  exact blind state' state state' alike

omit [Field R] [LinearOrder R] in
theorem blind_pure (value : α) : Blind (pure value : Prog (ReplyState R) ChatError α) :=
  fun _ _ alike => ⟨rfl, alike, rfl, fun is => by cases is⟩

omit [Field R] [LinearOrder R] in
theorem blind_modify {change : ReplyState R → ReplyState R}
    (kept : ∀ state state', Alike state state' → Alike (change state) (change state'))
    (sampled : ∀ state, (change state).sampledTokens = state.sampledTokens) :
    Blind (Prog.modify change : Prog (ReplyState R) ChatError Unit) :=
  fun state state' alike => ⟨rfl, kept state state' alike, sampled state, fun is => by cases is⟩

omit [Field R] [LinearOrder R] in
theorem Alike.flushed {state state' : ReplyState R} (alike : Alike state state') (detokenizer : StreamingDetokenizer)
    (stopFilter : StopFilter) :
    Alike { state with detokenizer := detokenizer, stopFilter := stopFilter }
      { state' with detokenizer := detokenizer, stopFilter := stopFilter } :=
  ⟨congrArg (fun told : Told => { told with detokenizer := detokenizer }) alike.told, rfl, alike.history⟩

theorem blind_send (fragment : Fragment) : Blind (send around fragment) := by
  intro state state' alike
  have sent : state.sent = state'.sent := congrArg Told.sent alike.told
  by_cases gone : around.gone state.sent.length = true
  · rw [send_gone gone, send_gone (sent ▸ gone)]
    exact ⟨rfl, alike, rfl, fun is => by cases is⟩
  · have stays := Bool.eq_false_iff.mpr gone
    rw [send_stays stays, send_stays (sent ▸ stays)]
    refine ⟨rfl, ⟨?_, alike.stopFilter, alike.history⟩, rfl, fun is => by cases is⟩
    exact congrArg (fun told : Told => { told with sent := told.sent ++ [fragment] }) alike.told

theorem blind_say (safe : Text) : Blind (say around safe) := by
  rw [say]
  split
  · exact blind_pure ()
  · refine Blind.bind (blind_modify (fun state state' alike => ?_) fun _ => rfl) fun _ => blind_send _
    exact ⟨congrArg (fun told : Told => { told with text := told.text ++ safe }) alike.told, alike.stopFilter, alike.history⟩

/-- The end of a reply depends on what it looks like only. -/
theorem blind_finishReply : Blind (finishReply around .limit) := by
  rw [finishReply]
  refine Blind.bind ?_ fun stopped => ?_
  · rw [flushText]
    refine blind_read (fun state => ?_) fun state state' alike => ?_
    · refine Blind.bind (blind_modify (fun state state' alike => ?_) fun _ => rfl) fun _ =>
        Blind.bind (blind_say _) fun _ => ?_
      · exact alike.flushed _ _
      · split
        · exact blind_pure true
        · refine Blind.bind (blind_modify (fun state state' alike => ?_) fun _ => rfl) fun _ =>
            Blind.bind (blind_say _) fun _ => blind_pure false
          exact ⟨alike.told, rfl, alike.history⟩
    · rw [show state.detokenizer = state'.detokenizer from congrArg Told.detokenizer alike.told, alike.stopFilter]
  · refine blind_read (fun state => blind_pure _) fun state state' alike => ?_
    rw [show state.text = state'.text from congrArg Told.text alike.told,
      show state.completionTokens = state'.completionTokens from congrArg Told.completionTokens alike.told,
      show state.sampledTokens = state'.sampledTokens from congrArg Told.sampledTokens alike.told, alike.stopFilter,
        alike.history]

/-- The end of a run that has said its tokens. -/
def closeRun (around : Surroundings R Value) (ran : Except ChatError Unit × ReplyState R) :
    Except ChatError Generated × ReplyState R :=
  match ran with
  | (.ok (), state) => finishReply around .limit state
  | (.error error, state) => (.error error, state)

theorem closeRun_sampledTokens (ran : Except ChatError Unit × ReplyState R) :
    (closeRun around ran).2.sampledTokens = ran.2.sampledTokens := by
  obtain ⟨error | ⟨⟩, state⟩ := ran
  · rfl
  · exact (blind_finishReply state state ⟨rfl, rfl, rfl⟩).2.2.1

omit [Field R] [LinearOrder R] in
theorem settleReply_eq {answer : Except ChatError Generated} {after after' : ReplyState R} (told : after.told = after'.told)
    (history : ∀ generated, answer = .ok generated → after.history = after'.history) :
    settleReply (answer, after) = settleReply (answer, after') := by
  have sampled : after.sampledTokens = after'.sampledTokens := congrArg Told.sampledTokens told
  have completion : after.completionTokens = after'.completionTokens := congrArg Told.completionTokens told
  have text : after.text = after'.text := congrArg Told.text told
  have sent : after.sent = after'.sent := congrArg Told.sent told
  rw [settleReply, settleReply]
  dsimp only
  rw [sampled, completion, text, sent]
  cases answer with
  | error error => rfl
  | ok generated =>
    dsimp only
    rw [history generated rfl]

variable {state : ReplyState R} {tokens : List ℕ}

/-- Runs that say the same tokens come to the same. -/
theorem settleReply_congr {ran ran' : Except ChatError Unit × ReplyState R}
    (spoken : Says around ran state tokens) (spoken' : Says around ran' state tokens) :
    settleReply (closeRun around ran) = settleReply (closeRun around ran') := by
  obtain ⟨answer, after⟩ := ran
  obtain ⟨answer', after'⟩ := ran'
  have same : answer = answer' := spoken.answer.trans spoken'.answer.symm
  have told : after.told = after'.told := spoken.told.trans spoken'.told.symm
  subst same
  rcases answer with error | ⟨⟩
  · exact settleReply_eq told fun _ is => by cases is
  · have alike : Alike after after' :=
      ⟨told, spoken.stopFilter.trans spoken'.stopFilter.symm, (spoken.history rfl).trans (spoken'.history rfl).symm⟩
    obtain ⟨same, alike', -, -⟩ := (blind_finishReply : Blind (finishReply around .limit)) after after' alike
    have split : finishReply around .limit after = ((finishReply around .limit after').1,
        (finishReply around .limit after).2) := by
      rw [← same]
    rw [closeRun, closeRun, split]
    exact settleReply_eq alike'.told fun _ _ => alike'.history

theorem Says.sampledTokens {ran : Except ChatError Unit × ReplyState R} (spoken : Says around ran state tokens) :
    (settleReply (closeRun around ran)).sampledTokens = (state.told.sayAll around tokens).2.sampledTokens := by
  rw [settleReply, closeRun_sampledTokens]
  exact congrArg Told.sampledTokens spoken.told

end Ending

end Muser.Reply
