import Muser.Lib.Tournament
import Muser.Reply.Loop

/-! # The greedy path on the accelerator

A request that asks for nothing but the greatest logits is served in blocks of tokens: the accelerator
finds each token of a block by a reduction tree over the logits and goes on from it, and what it finds is
said as it comes. The tokens that end a reply are left out of the reduction.
-/

namespace Muser.Reply

open Text Gbnf Atem

/-- The server and its environment, as far as the path depends on them. -/
structure Serving where
  backend : String
  slots : ℕ
  crossVendorQk : Bool
  streamDecodeProfile : Bool

structure GreedyRequest (R : Type) extends ReplyRequest R where
  sessionId : Option Text
  logprobs : Option Bool

section Reduction

variable {R : Type} [LinearOrder R] (logits : List R) (excluded : List ℕ)

/-- A token and the logit it has in the reduction. Behind the vocabulary there is nothing. -/
def greedyLane (token : ℕ) : Candidate R :=
  match logits[token]? with
  | none => (0, ⊥)
  | some logit => (token, if token ∈ excluded then ⊥ else (logit : Logit R))

/-- The first pass: the best of each block of lanes. -/
def greedyBlock (block : ℕ) : Candidate R := tournament Prod.snd 10 fun lane =>
    greedyLane logits excluded (block * 1024 + lane)

/-- The second pass: the best of the blocks. -/
def greedyArgmax : ℕ :=
  (tournament Prod.snd 10 fun block =>
    if block < (logits.length + 1023) / 1024 then greedyBlock logits excluded block else (0, ⊥)).1

end Reduction

variable {R Value : Type} [Field R] [LinearOrder R] (around : Surroundings R Value)

/-- What a block of tokens gives: those the model has taken, the one behind them, and what cancelled it. -/
structure GreedyBlock where
  consumed : List ℕ
  next : ℕ
  cancelled : Option ChatError

/-- The tokens of a block as they are found, each going on from the one before. -/
def streamTokens (excluded start : List ℕ) (onToken : ℕ → Prog (ReplyState R) ChatError Unit) :
    ℕ → List ℕ → Prog (ReplyState R) ChatError GreedyBlock
  | 0, consumed => pure ⟨consumed, 0, none⟩
  | remaining + 1, consumed => do
    let logits ← Prog.lift (around.decode (start ++ consumed))
    let produced := greedyArgmax logits excluded
    if around.vocabSize ≤ produced then Prog.fail .unavailable
    else if remaining = 0 then pure ⟨consumed, produced, none⟩
    else fun state =>
      match onToken produced state with
      | (.ok (), state) => streamTokens excluded start onToken remaining (consumed ++ [produced]) state
      | (.error error, state) => (.ok ⟨consumed, produced, some error⟩, state)

def maxDflashBlock : ℕ := 16

/-- One block; what a cancelled one leaves of the session is nothing. -/
def decodeGreedyBlock (firstToken tokenCount : ℕ) (excluded : List ℕ) (onToken : ℕ → Prog (ReplyState R) ChatError Unit) :
    Prog (ReplyState R) ChatError GreedyBlock := do
  let start ← Prog.read
  if tokenCount = 0 ∨ maxDflashBlock < tokenCount ∨ around.vocabSize ≤ firstToken ∨ ∃ token ∈ excluded,
    around.vocabSize ≤ token then
    Prog.fail .unavailable
  else do
    let block ← streamTokens around excluded start.history onToken tokenCount [firstToken]
    Prog.modify fun state => { state with history := if block.cancelled.isSome then [] else start.history ++ block.consumed }
    pure block

/-- Say a token of the greedy path: nothing looks for stop words. -/
def sayGreedyToken (token : ℕ) : Prog (ReplyState R) ChatError Unit := do
  let before ← Prog.read
  let (piece, detokenizer) := before.detokenizer.pushToken around.served.tokenizer token
  Prog.modify fun state => { state with
    sampledTokens := state.sampledTokens ++ [token]
    completionTokens := state.completionTokens + 1
    detokenizer := detokenizer
    text := state.text ++ piece }
  send around (piece, some token)

/-- So many tokens, block by block. -/
def greedyBlocks (remaining : ℕ) : Prog (ReplyState R) ChatError Unit :=
  if remaining = 0 then pure ()
  else do
    let state ← Prog.read
    sayGreedyToken around state.next
    let block ← decodeGreedyBlock around state.next (min remaining maxDflashBlock) around.served.eos (sayGreedyToken around)
    match block.cancelled with
    | some error => Prog.fail error
    | none => do
      Prog.modify fun state => { state with next := block.next }
      greedyBlocks (remaining - min remaining maxDflashBlock)
termination_by remaining
decreasing_by
  rw [maxDflashBlock]
  omega

variable (serving : Serving) (request : GreedyRequest R) (params : Option (SamplingParams R)) (maxTokens : ℕ)

/-- Whether a request takes the greedy path. -/
def gpuGreedy (grammar : Option GrammarMatcher) : Bool :=
  serving.backend == "metal" && serving.slots == 1 && request.sessionId.isNone && params.isNone &&
    request.sampler.ignoreEos &&
    request.stop.all StopField.isEmpty && grammar.isNone && request.tools.tools.isNone && !request.reasoningControl &&
    request.logprobs != some true && request.tMaxPredictMs.all (decide <|
      · ≤ 0) && !serving.crossVendorQk && !serving.streamDecodeProfile

/-- The tokens of a reply, by the greedy path or one by one. -/
def replyTokens (greedy : Bool) (logits : List R) : Prog (ReplyState R) ChatError Generated :=
  if maxTokens = 0 then do
    let state ← Prog.read
    pure ⟨[], 0, "length", "limit", [], [], state.history⟩
  else do
    beginReply around request.toReplyRequest params logits
    if greedy then do
      greedyBlocks around maxTokens
      finishReply around .limit
    else do
      let ending ← turns around request.toReplyRequest params maxTokens maxTokens 0
      finishReply around ending

/-- What comes of a reply: its answer, what has been said when it ended and what is left in the session. -/
structure Outcome where
  answer : Except ChatError Generated
  sampledTokens : List ℕ
  completionTokens : ℕ
  text : Text
  sent : List Fragment
  history : List ℕ

/-- A reply that fails leaves nothing in the session. -/
def settleReply (ran : Except ChatError Generated × ReplyState R) : Outcome where
  answer := ran.1
  sampledTokens := ran.2.sampledTokens
  completionTokens := ran.2.completionTokens
  text := ran.2.text
  sent := ran.2.sent
  history := match ran.1 with
    | .ok _ => ran.2.history
    | .error _ => []

variable (prompt : List ℕ) (logits : List R) (grammar : Option GrammarMatcher) (sampler : RequestSamplerState R)

/-- A reply whose path is given. -/
def replyBy (greedy : Bool) : Outcome :=
  settleReply (replyTokens around request params maxTokens greedy logits
    (.start request.toReplyRequest prompt grammar sampler))

def generateReply : Outcome :=
  replyBy around request params maxTokens prompt logits grammar sampler (gpuGreedy serving request params grammar)

end Muser.Reply

/-! ## Which token leads

The plain path takes the first of the greatest logits. The reduction on the accelerator finds a greatest
one too, but of several it takes the one whose place is the first: the digits of its block are turned
round, and then those of its lane. Tokens behind the last block are not looked at.
-/

namespace Muser.Reply

section Reduction

variable {R : Type} [LinearOrder R]

/-- Where a token stands in the order that the reduction prefers. -/
def place (token : ℕ) : ℕ := 1024 * turned 10 (token / 1024) + turned 10 (token % 1024)

/-- How many logits the reduction looks at. -/
def lookedAt (values : List (Logit R)) : ℕ := min values.length (1024 * 1024)

/-- A token that has the greatest logit, and the first place of those that have it. -/
def Leads (values : List (Logit R)) (token : ℕ) : Prop :=
  token < lookedAt values ∧ ∀ other < lookedAt values,
    values.getD other ⊥ < values.getD token ⊥ ∨ values.getD other ⊥ = values.getD token ⊥ ∧ place token ≤ place other

instance (values : List (Logit R)) (token : ℕ) : Decidable (Leads values token) := inferInstanceAs (Decidable (_ ∧ _))

/-- The logits without those of some tokens. -/
def maskedLogits (excluded : List ℕ) (logits : List R) : List (Logit R) :=
  excluded.foldl (fun adjusted token => adjusted.set token ⊥) (logits.map some)

variable {values : List (Logit R)} {logits : List R} {excluded : List ℕ} {token other : ℕ}

theorem place_injective (inside : token < 1024 * 1024) (inside' : other < 1024 * 1024) (same : place token = place other) :
    token = other := by
  have lane := @turned_lt 10 (token % 1024) (by lia)
  have lane' := @turned_lt 10 (other % 1024) (by lia)
  rw [place, place] at same
  have blocks := @turned_injective 10 (token / 1024) (other / 1024) (by lia) (by lia) (by lia)
  have lanes := @turned_injective 10 (token % 1024) (other % 1024) (by lia) (by lia) (by lia)
  lia

/-- Only one token leads. -/
theorem Leads.unique (leads : Leads values token) (leads' : Leads values other) : token = other := by
  have few : lookedAt values ≤ 1024 * 1024 := Nat.min_le_right _ _
  obtain ⟨inside, ahead⟩ := leads
  obtain ⟨inside', ahead'⟩ := leads'
  rcases ahead other inside' with less | ⟨same, before⟩
  · rcases ahead' token inside with less' | ⟨same', -⟩
    · exact absurd less (lt_asymm less')
    · exact absurd same' (ne_of_gt less)
  · rcases ahead' token inside with less' | ⟨-, before'⟩
    · exact absurd same (ne_of_gt less')
    · exact place_injective (Nat.lt_of_lt_of_le inside few) (Nat.lt_of_lt_of_le inside' few) (Nat.le_antisymm before before')

omit [LinearOrder R] in
theorem length_foldl_set (values : List (Logit R)) :
    (excluded.foldl (fun adjusted token => adjusted.set token ⊥) values).length = values.length := by
  induction excluded generalizing values with
  | nil => rfl
  | cons token excluded ih => rw [List.foldl_cons, ih, List.length_set]

omit [LinearOrder R] in
theorem length_maskedLogits : (maskedLogits excluded logits).length = logits.length :=
  (length_foldl_set _).trans (List.length_map _)

omit [LinearOrder R] in
theorem getD_foldl_set (values : List (Logit R)) :
    (excluded.foldl (fun adjusted token => adjusted.set token ⊥) values).getD token ⊥ =
      if token ∈ excluded then ⊥ else values.getD token ⊥ := by
  induction excluded generalizing values with
  | nil => rfl
  | cons first excluded ih =>
    rw [List.foldl_cons, ih, List.getD_eq_getElem?_getD, List.getD_eq_getElem?_getD, List.getElem?_set]
    by_cases later : token ∈ excluded
    · rw [if_pos later, if_pos (List.mem_cons_of_mem _ later)]
    · rw [if_neg later]
      by_cases here : first = token
      · rw [if_pos here, if_pos (List.mem_cons.mpr (.inl here.symm))]
        split <;> rfl
      · rw [if_neg here, if_neg fun mem => (List.mem_cons.mp mem).elim (fun same => here same.symm) later]

omit [LinearOrder R] in
theorem getD_maskedLogits : (maskedLogits excluded logits).getD token ⊥ = (greedyLane logits excluded token).2 := by
  refine (getD_foldl_set _).trans ?_
  rw [greedyLane]
  cases inside : logits[token]? with
  | none =>
    have outside : (logits.map (some : R → Option R)).getD token none = none := by
      rw [List.getD_eq_getElem?_getD, List.getElem?_map, inside]
      rfl
    exact (congrArg _ outside).trans (ite_self ⊥)
  | some logit =>
    have here : (logits.map (some : R → Option R)).getD token none = some logit := by
      rw [List.getD_eq_getElem?_getD, List.getElem?_map, inside]
      rfl
    exact congrArg _ here

omit [LinearOrder R] in
/-- The lane of a token in the vocabulary is the token's. -/
theorem greedyLane_fst (inside : token < logits.length) : (greedyLane logits excluded token).1 = token := by
  rw [greedyLane, List.getElem?_eq_getElem inside]

omit [LinearOrder R] in
theorem greedyLane_outside (outside : logits.length ≤ token) : (greedyLane logits excluded token).2 = ⊥ := by
  rw [greedyLane, List.getElem?_eq_none outside]

variable (logits excluded) in
/-- The best lane of a block. -/
theorem greedyBlock_ahead (block : ℕ) : ∃ lane < 1024,
    greedyBlock logits excluded block = greedyLane logits excluded (block * 1024 + lane) ∧
    ∀ other < 1024, Ahead 10 (fun lane => (greedyLane logits excluded (block * 1024 + lane)).2) lane other :=
  tournament_ahead (Prod.snd : Candidate R → Logit R) 10 _

/-- The best block, whose best lane is of a token in the vocabulary. -/
theorem greedyArgmax_ahead (nonempty : 0 < logits.length) : ∃ block < 1024, ∃ lane < 1024,
    block * 1024 + lane < logits.length ∧ greedyArgmax logits excluded = block * 1024 + lane ∧
      (∀ other < 1024, Ahead 10 (fun lane => (greedyLane logits excluded (block * 1024 + lane)).2) lane other) ∧
      ∀ other < 1024, other < (logits.length + 1023) / 1024 → block ≠ other →
        (greedyBlock logits excluded other).2 < (greedyLane logits excluded (block * 1024 + lane)).2 ∨
          (greedyBlock logits excluded other).2 = (greedyLane logits excluded (block * 1024 + lane)).2 ∧
            turned 10 block < turned 10 other := by
  obtain ⟨block, few, best, ahead⟩ := tournament_ahead (Prod.snd : Candidate R → Logit R) 10 fun block =>
    if block < (logits.length + 1023) / 1024 then greedyBlock logits excluded block else (0, ⊥)
  have some_ : 0 < (logits.length + 1023) / 1024 := by omega
  have first := ahead 0 (by decide)
  -- A block with nothing in it could only be the first.
  have block_inside : block < (logits.length + 1023) / 1024 := by
    by_contra outside
    have zero := first.eq_zero few (by rw [if_neg outside]; exact not_lt_bot)
    rw [zero] at outside
    exact outside some_
  obtain ⟨lane, few', best', ahead'⟩ := greedyBlock_ahead logits excluded block
  have is : greedyArgmax logits excluded = (greedyLane logits excluded (block * 1024 + lane)).1 := by
    rw [greedyArgmax, best, if_pos block_inside, best']
  have inside : block * 1024 + lane < logits.length := by
    by_contra outside
    have least := @greedyLane_outside R logits excluded _ (Nat.le_of_not_lt outside)
    have zero := first.eq_zero few (by rw [if_pos block_inside, best', least]; exact not_lt_bot)
    have zero' := (ahead' 0 (by decide)).eq_zero few' (by rw [least]; exact not_lt_bot)
    rw [zero, zero'] at outside
    exact outside nonempty
  refine ⟨block, few, lane, few', inside, is.trans (greedyLane_fst inside), ahead',
    fun other few'' block_inside' differs => ?_⟩
  have played := ahead other few''
  rw [Ahead, if_pos block_inside, if_pos block_inside', best'] at played
  refine played.imp_right (And.imp_right fun before => Nat.lt_of_le_of_ne before fun level => ?_)
  exact differs (turned_injective few few'' level)

/-- What the reduction finds leads. -/
theorem greedyArgmax_leads (nonempty : 0 < logits.length) : Leads (maskedLogits excluded logits)
    (greedyArgmax logits excluded) := by
  obtain ⟨block, few, lane, few', inside, is, ahead, blocks⟩ := @greedyArgmax_ahead R _ logits excluded nonempty
  have looked : lookedAt (maskedLogits excluded logits) = min logits.length (1024 * 1024) := by
    rw [lookedAt, length_maskedLogits]
  rw [is]
  refine ⟨by rw [looked]; lia, fun other within => ?_⟩
  rw [looked] at within
  rw [getD_maskedLogits, getD_maskedLogits, place, place, show (block * 1024 + lane) / 1024 = block by lia,
    show (block * 1024 + lane) % 1024 = lane by lia]
  obtain ⟨lane', few'', best, ahead'⟩ := greedyBlock_ahead logits excluded (other / 1024)
  have beside := ahead' (other % 1024) (by lia)
  rw [Ahead, show other / 1024 * 1024 + other % 1024 = other by lia] at beside
  by_cases same : block = other / 1024
  · have beside' := ahead (other % 1024) (by lia)
    rw [Ahead, same, show other / 1024 * 1024 + other % 1024 = other by lia] at beside'
    rw [same]
    refine beside'.imp_right (And.imp_right fun before => ?_)
    lia
  · have lanes := @turned_lt 10 lane few'
    have lanes' := @turned_lt 10 (other % 1024) (by lia)
    rw [← best] at beside
    rcases blocks (other / 1024) (by lia) (by lia) same with less | ⟨level, before⟩
    · rcases beside with less' | ⟨level', -⟩
      · exact .inl (lt_trans less' less)
      · exact .inl (level' ▸ less)
    · rcases beside with less' | ⟨level', -⟩
      · exact .inl (level ▸ less')
      · refine .inr ⟨level'.trans level, ?_⟩
        lia

/-- The token that leads is what the reduction finds. -/
theorem leads_iff (nonempty : 0 < logits.length) : Leads (maskedLogits excluded logits) token ↔
    token = greedyArgmax logits excluded := by
  constructor
  · intro leads
    exact leads.unique (greedyArgmax_leads nonempty)
  · rintro rfl
    exact greedyArgmax_leads nonempty

end Reduction

end Muser.Reply
