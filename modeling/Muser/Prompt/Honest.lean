import Muser.Prompt.Continuation
import Mathlib.Data.List.ModifyLast

/-! # Honest continuations

A client that sends its whole conversation each time, or its whole prompt with what was generated, asks for a
continuation of what was committed: whatever was cut in between, its next turn is of the stored lineage.
-/

namespace Muser.Prompt

open Text Atem

section Conversations

/-- What a client has said and been told, as it keeps it: it drops nothing. -/
inductive Conversation where
  | chat (messages : List Message)
  | raw (tokens : List ℕ)

def Conversation.after (request : ChatRequest) (generated : List ℕ) : Conversation :=
  match request.muserPromptTokenIds with
  | none => .chat request.messages
  | some tokens => .raw (tokens ++ generated)

/-- The request sends the whole conversation, and perhaps more. -/
def Conversation.ContinuedBy : Conversation → ChatRequest → Prop
  | .chat messages, request => request.muserPromptTokenIds = none ∧ messages <+: request.messages
  | .raw tokens, request => ∃ sent, request.muserPromptTokenIds = some sent ∧ tokens <+: sent

/-- No message of another role stands in front of a system message. -/
def SystemsFirst (messages : List Message) : Prop :=
  messages.Pairwise fun first later => isSystem later = true → isSystem first = true

variable {Image : Type}

/-- The runs of an honest client: what it has, and what its session has committed. A request has a message. -/
inductive Honest (runtime : ServingRuntime Image) : Conversation → SessionBundle → Prop where
  | first {request : ChatRequest} {outputReserve : ℕ} {generated : List ℕ} {bundle : SessionBundle}
      (sent : request.messages ≠ [])
      (commit : runtime.commitTurn none request outputReserve generated = .ok bundle) :
      Honest runtime (.after request generated) bundle
  | next {conversation : Conversation} {previous : SessionBundle} {request : ChatRequest} {outputReserve : ℕ}
      {generated : List ℕ} {bundle : SessionBundle} (honest : Honest runtime conversation previous)
      (sent : request.messages ≠ []) (continued : conversation.ContinuedBy request)
      (commit : runtime.commitTurn (some previous) request outputReserve generated = .ok bundle) :
      Honest runtime (.after request generated) bundle

end Conversations

section Units

theorem windows_contain {α : Type} [DecidableEq α] {haystack needle : List α} (infix_ : needle <:+: haystack) :
    containsContiguous haystack needle = true := by
  obtain ⟨before, after, rfl⟩ := infix_
  rw [containsContiguous, Bool.or_eq_true, Bool.and_eq_true, decide_eq_true_eq, List.any_eq_true]
  refine .inr ⟨?_, needle, ?_, beq_self_eq_true needle⟩
  · simp only [List.length_append]
    omega
  · refine List.mem_map.mpr ⟨before.length, ?_, ?_⟩
    · simp only [List.mem_range, List.length_append]
      omega
    · rw [List.append_assoc, List.drop_left, List.take_left]

/-- The turns have the messages in their order. -/
theorem addToTurns_flatten (turns : List (List Message)) (message : Message) :
    (addToTurns turns message).flatten = turns.flatten ++ [message] := by
  rw [addToTurns]
  split
  · rw [List.flatten_concat]
  · rename_i continues
    rcases List.eq_nil_or_concat turns with rfl | ⟨front, last, rfl⟩
    · exact absurd (.inr rfl) continues
    · rw [List.concat_eq_append, List.modifyLast_concat, List.flatten_concat, List.flatten_concat, List.append_assoc]

theorem addToTurns_nonempty {turns : List (List Message)} (nonempty : ∀ turn ∈ turns, turn ≠ []) (message : Message) :
    ∀ turn ∈ addToTurns turns message, turn ≠ [] := by
  rw [addToTurns]
  split
  · intro turn mem
    rcases List.mem_append.mp mem with old | new
    · exact nonempty turn old
    · rw [List.mem_singleton.mp new]
      exact List.cons_ne_nil _ _
  · rename_i continues
    rcases List.eq_nil_or_concat turns with rfl | ⟨front, last, rfl⟩
    · exact absurd (.inr rfl) continues
    · rw [List.concat_eq_append, List.modifyLast_concat]
      intro turn mem
      rcases List.mem_append.mp mem with old | new
      · exact nonempty turn (by rw [List.concat_eq_append]; exact List.mem_append_left _ old)
      · rw [List.mem_singleton.mp new]
        exact List.append_ne_nil_of_right_ne_nil _ (List.cons_ne_nil _ _)

theorem completeChatTurns_spec (messages : List Message) :
    (completeChatTurns messages).flatten = messages ∧ ∀ turn ∈ completeChatTurns messages, turn ≠ [] := by
  rw [completeChatTurns]
  induction messages using List.reverseRecOn with
  | nil => exact ⟨rfl, fun turn mem => absurd mem List.not_mem_nil⟩
  | append_singleton front last ih =>
    rw [List.foldl_concat]
    refine ⟨?_, addToTurns_nonempty ih.2 last⟩
    rw [addToTurns_flatten, ih.1]

variable {messages : List Message}

/-- What is left of the turns when the oldest are dropped. -/
theorem suffix_of_turns {turns : List (List Message)} (nonempty : turns ≠ [])
    (suffix : turns <:+ completeChatTurns messages) : turns.flatten ≠ [] ∧ turns.flatten <:+ messages := by
  obtain ⟨same, each⟩ := completeChatTurns_spec messages
  obtain ⟨dropped, is⟩ := suffix
  refine ⟨fun empty => ?_, dropped.flatten, ?_⟩
  · obtain ⟨turn, rest, rfl⟩ := List.exists_cons_of_ne_nil nonempty
    refine each turn ?_ (List.append_eq_nil_iff.mp empty).1
    rw [← is]
    exact List.mem_append_right _ List.mem_cons_self
  · rw [← List.flatten_append, is, same]

theorem SystemsFirst.prefix_ {messages more : List Message} (systems : SystemsFirst more) (front : messages <+: more) :
    SystemsFirst messages := List.Pairwise.sublist front.sublist systems

/-- The systems are first exactly when the messages after them are of other roles. -/
theorem systemsFirst_iff (messages : List Message) :
    SystemsFirst messages ↔ (messages.dropWhile isSystem).any isSystem = false := by
  induction messages with
  | nil => exact ⟨fun _ => rfl, fun _ => .nil⟩
  | cons message messages ih =>
    rw [SystemsFirst, List.pairwise_cons]
    cases system : isSystem message with
    | true =>
      rw [List.dropWhile_cons_of_pos system, ← ih]
      exact ⟨And.right, fun rest => ⟨fun _ _ _ => rfl, rest⟩⟩
    | false =>
      rw [List.dropWhile_cons_of_neg (by rw [system]; exact Bool.false_ne_true), List.any_cons, system, Bool.false_or,
        List.any_eq_false]
      constructor
      · intro first later mem is
        exact Bool.false_ne_true (first.1 later mem is)
      · intro others
        exact ⟨fun later mem is => absurd is (others later mem),
          List.pairwise_of_forall_mem_list fun _ _ later mem is => absurd is (others later mem)⟩

theorem shiftChatUnits_of_systemsFirst (systems : SystemsFirst messages) :
    shiftChatUnits messages = .ok (messages.takeWhile isSystem, completeChatTurns (messages.dropWhile isSystem)) := by
  rw [shiftChatUnits, (systemsFirst_iff messages).mp systems]
  rfl

theorem shiftChatUnits_eq_ok {units : List Message × List (List Message)} (is : shiftChatUnits messages = .ok units) :
    SystemsFirst messages ∧ units = (messages.takeWhile isSystem, completeChatTurns (messages.dropWhile isSystem)) := by
  obtain ⟨passed, is⟩ := check_eq_ok_iff.mp is
  rw [reject_eq_ok_iff] at passed
  cases is
  exact ⟨(systemsFirst_iff messages).mpr passed, rfl⟩

end Units

section Remembering

variable {Image : Type} {runtime : ServingRuntime Image}

/-- What a bundle has of the conversation: the whole, or the systems and the newest turns of it, or the first tokens
and the newest of them. Where something is missing the context was rebuilt. -/
def Remembers (runtime : ServingRuntime Image) (bundle : SessionBundle) : Conversation → Prop
  | .chat messages => ∃ plan, planOf bundle.canonicalReplayPlanJson = some plan ∧ plan ≠ [] ∧
      (plan = messages ∨ bundle.contextEpoch ≠ 0 ∧ SystemsFirst messages ∧
        ∃ rest, rest ≠ [] ∧ rest <:+ messages.dropWhile isSystem ∧ plan = messages.takeWhile isSystem ++ rest)
  | .raw tokens => planOf bundle.canonicalReplayPlanJson = some [] ∧
      (bundle.targetTokens = tokens ∨ bundle.contextEpoch ≠ 0 ∧ runtime.rawRetainPrefix ≤ bundle.targetTokens.length ∧
        bundle.targetTokens.take runtime.rawRetainPrefix <+: tokens ∧
        bundle.targetTokens.drop runtime.rawRetainPrefix <:+ tokens.drop runtime.rawRetainPrefix)

variable {request : ChatRequest} {canonical : CanonicalPrefill Image} {outputReserve : ℕ}

theorem newestTurns_suffix {systems : List Message} {capacity : ℕ} {turns : List (List Message)}
    (is : runtime.newestTurns request systems capacity turns = .ok canonical) :
    ∃ kept, kept ≠ [] ∧ kept <:+ turns ∧ canonical.replayMessages = systems ++ kept.flatten := by
  induction turns with
  | nil => cases is
  | cons turn turns ih =>
    rw [ServingRuntime.newestTurns] at is
    obtain ⟨prefill, built, is⟩ := bind_eq_ok_iff.mp is
    split at is
    · cases is
      exact ⟨turn :: turns, List.cons_ne_nil _ _, List.suffix_rfl, rfl⟩
    · split at is
      · cases is
      · obtain ⟨kept, nonempty, suffix, replay⟩ := ih is
        exact ⟨kept, nonempty, suffix.trans (List.suffix_cons _ _), replay⟩

/-- The conversation that is kept for replays: all of it, or its systems and its newest turns. -/
theorem replay_of_chat (is : runtime.prepareWithContextPolicy request outputReserve = .ok canonical)
    (chat : request.muserPromptTokenIds = none) :
    canonical.replayMessages = request.messages ∨ canonical.shifted = true ∧ SystemsFirst request.messages ∧
      ∃ rest, rest ≠ [] ∧ rest <:+ request.messages.dropWhile isSystem ∧
        canonical.replayMessages = request.messages.takeWhile isSystem ++ rest := by
  obtain ⟨capacity, -, is⟩ := bind_eq_ok_iff.mp is
  rw [chat] at is
  obtain ⟨full, -, is⟩ := bind_eq_ok_iff.mp is
  split at is
  · cases is
    exact .inl rfl
  · obtain ⟨-, is⟩ := check_eq_ok_iff.mp is
    obtain ⟨⟨systems, turns⟩, units, is⟩ := bind_eq_ok_iff.mp is
    obtain ⟨systemsFirst, same⟩ := shiftChatUnits_eq_ok (refuse_eq_ok.mp units)
    cases same
    obtain ⟨kept, nonempty, suffix, replay⟩ := newestTurns_suffix is
    obtain ⟨nonempty, suffix⟩ := suffix_of_turns nonempty suffix
    exact .inr ⟨(newestTurns_eq_ok is).2, systemsFirst, kept.flatten, nonempty, suffix, replay⟩

/-- The prompt of tokens: all of them, or the first and the newest. -/
theorem witnesses_of_raw {tokens : List ℕ} (is : runtime.prepareWithContextPolicy request outputReserve = .ok canonical)
    (raw : request.muserPromptTokenIds = some tokens) :
    canonical.replayMessages = [] ∧ (canonical.prefill.witnesses = tokens ∨ canonical.shifted = true ∧
      ∃ start, runtime.rawRetainPrefix ≤ start ∧ start ≤ tokens.length ∧
        canonical.prefill.witnesses = tokens.take runtime.rawRetainPrefix ++ tokens.drop start) := by
  obtain ⟨capacity, -, is⟩ := bind_eq_ok_iff.mp is
  rw [raw] at is
  dsimp only at is
  split at is
  · rename_i long
    obtain ⟨-, is⟩ := check_eq_ok_iff.mp is
    obtain ⟨retained, compacted, is⟩ := bind_eq_ok_iff.mp is
    obtain ⟨prefill, built, is⟩ := bind_eq_ok_iff.mp is
    cases is
    obtain ⟨room, compacted⟩ := check_eq_ok_iff.mp (refuse_eq_ok.mp compacted)
    obtain ⟨-, built⟩ := check_eq_ok_iff.mp (refuse_eq_ok.mp built)
    rw [reject_eq_ok_iff, decide_eq_false_iff_not] at room
    cases compacted
    cases built
    refine ⟨rfl, .inr ⟨rfl, tokens.length - (capacity - runtime.rawRetainPrefix), ?_, Nat.sub_le _ _, rfl⟩⟩
    omega
  · obtain ⟨prefill, built, is⟩ := bind_eq_ok_iff.mp is
    cases is
    obtain ⟨-, built⟩ := check_eq_ok_iff.mp (refuse_eq_ok.mp built)
    cases built
    exact ⟨rfl, .inl rfl⟩

variable {bundle : Option SessionBundle} {conversation : Conversation} {contextEpoch rawRetainPrefix : ℕ}

/-- A turn that was cut counts as rebuilt, and one that goes on from its snapshot begins with it. -/
theorem planned_of_prepared
    {planned : PlannedTurn Image} (is : runtime.planTurn bundle request outputReserve = .ok planned) :
    ∃ prepared, runtime.prepareWithContextPolicy request outputReserve = .ok prepared ∧
      planned.prefill = prepared.prefill ∧ planned.replayMessages = prepared.replayMessages ∧
      (prepared.shifted = true → planned.contextEpoch ≠ 0) ∧
      ∀ previous, ServingRuntime.installed bundle planned = some previous →
        previous.positionWitnesses <+: planned.prefill.witnesses := by
  have planning := is
  obtain ⟨prepared, isPrepared, is⟩ := bind_eq_ok_iff.mp is
  obtain ⟨shifted, rebuilt, is⟩ := bind_eq_ok_iff.mp is
  obtain ⟨epoch, counted, is⟩ := bind_eq_ok_iff.mp is
  cases is
  refine ⟨prepared, isPrepared, rfl, rfl, fun cut => ?_, fun previous installs => ?_⟩
  · have again : shifted = true := by
      rw [refuse_eq_ok, ServingRuntime.rebuilt.eq_def] at rebuilt
      split at rebuilt
      · rw [Except.ok.injEq, cut] at rebuilt
        exact rebuilt.symm
      · obtain ⟨exactFrontier, -, rebuilt⟩ := bind_eq_ok_iff.mp rebuilt
        rw [cut, Bool.true_or, if_pos rfl, Except.ok.injEq] at rebuilt
        exact rebuilt.symm
    obtain ⟨-, counted⟩ := check_eq_ok_iff.mp (refuse_eq_ok.mp counted)
    rw [again, Except.ok.injEq] at counted
    rw [← counted]
    exact Nat.succ_ne_zero _
  · rw [ServingRuntime.installed] at installs
    split at installs
    · cases installs
    · rename_i kept
      rw [Bool.not_eq_true] at kept
      rw [installs] at planning
      obtain ⟨-, -, -, -, -, validated⟩ := installed_eq_ok planning kept
      obtain ⟨-, -, front, -⟩ := validate_eq_true validated
      exact front

/-- What a turn commits is computed from its prompt and what was generated, and remembers them. -/
theorem remembers_of_commit {generated : List ℕ} {next : SessionBundle} (sent : request.messages ≠ [])
    (before : ∀ previous, bundle = some previous → previous.positionWitnesses = previous.targetTokens)
    (commit : runtime.commitTurn bundle request outputReserve generated = .ok next) :
    next.positionWitnesses = next.targetTokens ∧ Remembers runtime next (.after request generated) := by
  obtain ⟨planned, isPlanned, commit⟩ := bind_eq_ok_iff.mp commit
  cases commit
  refine ⟨rfl, ?_⟩
  obtain ⟨prepared, isPrepared, prefill, replay, epoch, front⟩ := planned_of_prepared isPlanned
  have history : (ServingRuntime.committed bundle planned generated).targetTokens =
      prepared.prefill.witnesses ++ generated := by
    rw [← prefill]
    cases installs : ServingRuntime.installed bundle planned with
    | none =>
      simp only [ServingRuntime.committed, installs, Option.elim_none, List.nil_append, List.length_nil, List.drop_zero]
    | some previous =>
      have own := before previous (by
        rw [ServingRuntime.installed] at installs
        split at installs
        · cases installs
        · exact installs)
      obtain ⟨more, whole⟩ := front previous installs
      simp only [ServingRuntime.committed, installs, Option.elim_some]
      rw [← own, ← whole, List.drop_left]
  cases kind : request.muserPromptTokenIds with
  | none =>
    rw [Conversation.after, kind]
    refine ⟨planned.replayMessages, planOf_planValue _, ?_⟩
    rw [replay]
    rcases replay_of_chat isPrepared kind with whole | ⟨shifted, systems, rest, nonempty, suffix, is⟩
    · rw [whole]
      exact ⟨sent, .inl rfl⟩
    · refine ⟨?_, .inr ⟨epoch shifted, systems, rest, nonempty, suffix, is⟩⟩
      rw [is]
      exact List.append_ne_nil_of_right_ne_nil _ nonempty
  | some tokens =>
    rw [Conversation.after, kind]
    obtain ⟨empty, either⟩ := witnesses_of_raw isPrepared kind
    refine ⟨?_, ?_⟩
    · rw [ServingRuntime.committed, replay, empty]
      exact planOf_planValue []
    · rw [history]
      rcases either with whole | ⟨shifted, start, late, inside, is⟩
      · exact .inl (by rw [whole])
      · have length : (tokens.take runtime.rawRetainPrefix).length = runtime.rawRetainPrefix := by
          rw [List.length_take]
          lia
        refine .inr ⟨epoch shifted, ?_, ?_, ?_⟩
        · rw [is]
          simp only [List.length_append, List.length_take]
          lia
        · rw [is, List.append_assoc, List.take_append_of_le_length (le_of_eq length.symm),
            List.take_of_length_le (le_of_eq length)]
          exact (List.take_prefix _ _).trans (List.prefix_append _ _)
        · rw [is, List.append_assoc, List.drop_append_of_le_length (le_of_eq length.symm),
            List.drop_eq_nil_of_le (le_of_eq length), List.nil_append, List.drop_append_of_le_length (by lia)]
          obtain ⟨skipped, same⟩ : tokens.drop start <:+ tokens.drop runtime.rawRetainPrefix := by
            rw [← Nat.add_sub_of_le late, ← List.drop_drop]
            exact List.drop_suffix _ _
          exact ⟨skipped, by rw [← same, List.append_assoc]⟩

theorem Honest.remembers {bundle : SessionBundle} (honest : Honest runtime conversation bundle) :
    bundle.positionWitnesses = bundle.targetTokens ∧ Remembers runtime bundle conversation := by
  induction honest with
  | first sent commit => exact remembers_of_commit sent (fun previous is => by cases is) commit
  | next _ sent _ commit ih =>
    refine remembers_of_commit sent (fun previous is => ?_) commit
    cases is
    exact ih.1

/-- The messages of a conversation in which nothing but systems stands first, cut at the last of these. -/
theorem cut_at_systems {systems rest : List Message} (areSystems : ∀ message ∈ systems, isSystem message = true)
    (others : ∀ message ∈ rest, isSystem message = false) :
    (systems ++ rest).takeWhile isSystem = systems ∧ (systems ++ rest).dropWhile isSystem = rest := by
  rw [List.takeWhile_append_of_pos areSystems, List.dropWhile_append_of_pos areSystems]
  cases rest with
  | nil => exact ⟨List.append_nil systems, rfl⟩
  | cons message rest =>
    have other : ¬ isSystem message = true := by rw [others message List.mem_cons_self]; exact Bool.false_ne_true
    rw [List.takeWhile_cons_of_neg other, List.dropWhile_cons_of_neg other]
    exact ⟨List.append_nil systems, rfl⟩

/-- What was kept of a conversation stands in every continuation of it, under the same systems. -/
theorem extendsPlan_of_kept {contextEpoch : ℕ} {messages current rest : List Message} (rebuilt : contextEpoch ≠ 0)
    (continued : messages <+: current) (systems : SystemsFirst current) (nonempty : rest ≠ [])
    (suffix : rest <:+ messages.dropWhile isSystem) :
    SystemsFirst (messages.takeWhile isSystem ++ rest) ∧
      extendsPlan contextEpoch (messages.takeWhile isSystem ++ rest)
        ((messages.takeWhile isSystem ++ rest).takeWhile isSystem) current (current.takeWhile isSystem) = true := by
  obtain ⟨more, rfl⟩ := continued
  have areSystems : ∀ message ∈ messages.takeWhile isSystem, isSystem message = true := fun _ => List.mem_takeWhile_imp
  have restOthers : ∀ message ∈ rest, isSystem message = false := fun message mem => by
    have first := (systemsFirst_iff messages).mp (systems.prefix_ (List.prefix_append _ _))
    rw [List.any_eq_false] at first
    exact Bool.eq_false_iff.mpr (first message (suffix.subset mem))
  -- The continuation has the systems of the conversation, as a message of another role stands after these.
  have split : messages ++ more = messages.takeWhile isSystem ++ (messages.dropWhile isSystem ++ more) := by
    rw [← List.append_assoc, List.takeWhile_append_dropWhile]
  have others : ∀ message ∈ messages.dropWhile isSystem ++ more, isSystem message = false := by
    have first := (systemsFirst_iff _).mp systems
    rw [split, List.dropWhile_append_of_pos areSystems, List.any_eq_false] at first
    cases after : messages.dropWhile isSystem with
    | nil =>
      rw [after] at suffix
      exact absurd (List.suffix_nil.mp suffix) nonempty
    | cons other left =>
      have head : ¬ isSystem other = true := by
        have := (systemsFirst_iff messages).mp (systems.prefix_ (List.prefix_append _ _))
        rw [after, List.any_cons, Bool.or_eq_false_iff] at this
        rw [this.1]
        exact Bool.false_ne_true
      rw [after, List.cons_append, List.dropWhile_cons_of_neg head] at first
      exact fun message mem => Bool.eq_false_iff.mpr (first message mem)
  obtain ⟨planSystems, planRest⟩ := cut_at_systems areSystems restOthers
  obtain ⟨currentSystems, -⟩ := cut_at_systems areSystems others
  refine ⟨(systemsFirst_iff _).mpr ?_, ?_⟩
  · rw [planRest, List.any_eq_false]
    exact fun message mem => Bool.eq_false_iff.mp (restOthers message mem)
  · rw [planSystems, split, currentSystems, extendsPlan]
    split
    · rename_i either
      exact either.resolve_left rebuilt
    · rw [beq_self_eq_true, Bool.true_and, List.drop_left, List.drop_left]
      exact windows_contain (suffix.isInfix.trans (List.prefix_append _ _).isInfix)

theorem extendsTokens_of_kept {previous tokens sent : List ℕ} (rebuilt : contextEpoch ≠ 0)
    (continued : tokens <+: sent) (long : rawRetainPrefix ≤ previous.length)
    (first : previous.take rawRetainPrefix <+: tokens)
    (newest : previous.drop rawRetainPrefix <:+ tokens.drop rawRetainPrefix) :
    extendsTokens contextEpoch rawRetainPrefix previous sent = true := by
  rw [extendsTokens, if_neg rebuilt, Nat.min_eq_left long, Bool.and_eq_true, List.isPrefixOf_iff_prefix]
  refine ⟨first.trans continued, windows_contain (newest.isInfix.trans ?_)⟩
  exact (continued.drop rawRetainPrefix).isInfix

/-- A whole conversation is extended by every continuation of it, whatever the epoch. -/
theorem extendsPlan_of_whole {contextEpoch : ℕ} {messages current previousSystems currentSystems : List Message}
    (continued : messages <+: current) :
    extendsPlan contextEpoch messages previousSystems current currentSystems = true := by
  have front : messages.isPrefixOf current = true := List.isPrefixOf_iff_prefix.mpr continued
  rw [extendsPlan, if_pos (.inr front), front]

theorem extendsTokens_of_whole {tokens sent : List ℕ} (continued : tokens <+: sent) :
    extendsTokens contextEpoch rawRetainPrefix tokens sent = true := by
  rcases Nat.eq_zero_or_pos contextEpoch with zero | rebuilt
  · rw [extendsTokens, if_pos zero, List.isPrefixOf_iff_prefix]
    exact continued
  · rw [extendsTokens, if_neg (Nat.pos_iff_ne_zero.mp rebuilt), Bool.and_eq_true, List.isPrefixOf_iff_prefix]
    exact ⟨(List.take_prefix _ _).trans continued, windows_contain (continued.drop _).isInfix⟩

theorem accepted_of_remembers {bundle : SessionBundle}
    (remembers : Remembers runtime bundle conversation) (continued : conversation.ContinuedBy request)
    (systems : request.muserPromptTokenIds = none → SystemsFirst request.messages) (promptWitnesses : List ℕ) :
    validateSessionLineage bundle request promptWitnesses runtime.rawRetainPrefix =
      .ok (bundle.positionWitnesses.isPrefixOf promptWitnesses) := by
  cases conversation with
  | raw tokens =>
    obtain ⟨sent, raw, continued⟩ := continued
    obtain ⟨stored, either⟩ := remembers
    have extended : extendsTokens bundle.contextEpoch runtime.rawRetainPrefix bundle.targetTokens sent = true := by
      rcases either with whole | ⟨rebuilt, long, first, newest⟩
      · rw [whole]
        exact extendsTokens_of_whole continued
      · exact extendsTokens_of_kept rebuilt continued long first newest
    rw [validateSessionLineage, stored]
    dsimp only
    rw [raw]
    dsimp only
    rw [extended]
    rfl
  | chat messages =>
    obtain ⟨chat, continued⟩ := continued
    obtain ⟨plan, stored, nonempty, either⟩ := remembers
    have systems := systems chat
    obtain ⟨planSystems, extended⟩ : SystemsFirst plan ∧ extendsPlan bundle.contextEpoch plan (plan.takeWhile isSystem)
        request.messages (request.messages.takeWhile isSystem) = true := by
      rcases either with rfl | ⟨rebuilt, -, rest, kept, suffix, rfl⟩
      · exact ⟨systems.prefix_ continued, extendsPlan_of_whole continued⟩
      · exact extendsPlan_of_kept rebuilt continued systems kept suffix
    rw [validateSessionLineage, stored]
    dsimp only
    rw [chat]
    dsimp only
    rw [List.isEmpty_eq_false_iff.mpr nonempty, shiftChatUnits_of_systemsFirst planSystems,
      shiftChatUnits_of_systemsFirst systems]
    show (reject (!extendsPlan _ _ _ _ _) _ >>= fun _ => _) = _
    rw [extended]
    rfl

/-- The next turn of every honest run is of the stored lineage, however many turns were dropped in between, exactly
when it is of tokens or no system message of it stands after a message of another role. -/
theorem honest_accepted_iff (runtime : ServingRuntime Image) (conversation : Conversation) (bundle : SessionBundle)
    (honest : Honest runtime conversation bundle) (request : ChatRequest) (continued : conversation.ContinuedBy request)
    (promptWitnesses : List ℕ) :
    (∃ exactFrontier, validateSessionLineage bundle request promptWitnesses runtime.rawRetainPrefix = .ok exactFrontier) ↔
      (request.muserPromptTokenIds = none → SystemsFirst request.messages) := by
  constructor
  · rintro ⟨exactFrontier, is⟩ chat
    rw [validateSessionLineage.eq_def] at is
    split at is
    · cases is
    · split at is
      · rename_i raw
        rw [chat] at raw
        cases raw
      · obtain ⟨-, is⟩ := check_eq_ok_iff.mp is
        obtain ⟨_, -, is⟩ := bind_eq_ok_iff.mp is
        obtain ⟨_, units, -⟩ := bind_eq_ok_iff.mp is
        exact (shiftChatUnits_eq_ok units).1
  · intro systems
    exact ⟨_, accepted_of_remembers honest.remembers.2 continued systems promptWitnesses⟩

end Remembering

section Turns

def said (role text : String) : Message := ⟨role.toList, .text text.toList, none, none, none, none, none, none⟩

/-- What a first turn keeps for replays, after how many rebuilds. -/
def firstPlan (request : ChatRequest) : Option (ℕ × Option (List Message)) := do
  let bundle ← (pictureRuntime.commitTurn none request 1 []).toOption
  some (bundle.contextEpoch, planOf bundle.canonicalReplayPlanJson)

theorem firstPlan_eq_some {request : ChatRequest} {epoch : ℕ} {plan : Option (List Message)}
    (is : firstPlan request = some (epoch, plan)) :
    ∃ bundle, pictureRuntime.commitTurn none request 1 [] = .ok bundle ∧ bundle.contextEpoch = epoch ∧
      planOf bundle.canonicalReplayPlanJson = plan := by
  obtain ⟨bundle, committed, is⟩ := Option.bind_eq_some_iff.mp is
  cases is
  exact ⟨bundle, toOption_eq_some_iff.mp committed, rfl, rfl⟩

private theorem plans_evaluated : firstPlan (chat [said "user" "aaaa", said "user" "b"]) = some (1, some [said "user" "b"]) ∧
    firstPlan (chat [said "user" "a", said "system" "b"]) = some (0, some [said "user" "a", said "system" "b"]) := by
  decide +kernel

/-- The first turn was cut to its newest message, and the conversation goes on with the whole. -/
theorem honest_accepted_iff_shifted : ∃ bundle,
    pictureRuntime.commitTurn none (chat [said "user" "aaaa", said "user" "b"]) 1 [] = .ok bundle ∧
      bundle.contextEpoch = 1 ∧ planOf bundle.canonicalReplayPlanJson = some [said "user" "b"] ∧
      ((∃ exactFrontier, validateSessionLineage bundle (chat [said "user" "aaaa", said "user" "b", said "user" "c"]) []
        pictureRuntime.rawRetainPrefix = .ok exactFrontier) ↔
          ((chat [said "user" "aaaa", said "user" "b", said "user" "c"]).muserPromptTokenIds = none →
            SystemsFirst [said "user" "aaaa", said "user" "b", said "user" "c"])) := by
  obtain ⟨bundle, committed, epoch, plan⟩ := firstPlan_eq_some plans_evaluated.1
  have honest : Honest pictureRuntime (.chat [said "user" "aaaa", said "user" "b"]) bundle :=
    .first (List.cons_ne_nil _ _) committed
  exact ⟨bundle, committed, epoch, plan, honest_accepted_iff pictureRuntime _ bundle honest
    (chat [said "user" "aaaa", said "user" "b", said "user" "c"]) ⟨rfl, [said "user" "c"], rfl⟩ []⟩

/-- A system message behind a user's is committed with its turn while the prompt fits, and no later turn is of the
lineage. -/
theorem late_system_refused : ∃ bundle, pictureRuntime.contextPolicy = .shift ∧
    Honest pictureRuntime (.chat [said "user" "a", said "system" "b"]) bundle ∧
    (Conversation.chat [said "user" "a", said "system" "b"]).ContinuedBy
      (chat [said "user" "a", said "system" "b", said "user" "c"]) ∧
    validateSessionLineage bundle (chat [said "user" "a", said "system" "b", said "user" "c"]) []
      pictureRuntime.rawRetainPrefix = .error (.conflict "stored replay plan has non-leading system content") := by
  obtain ⟨bundle, committed, -, plan⟩ := firstPlan_eq_some plans_evaluated.2
  refine ⟨bundle, rfl, .first (List.cons_ne_nil _ _) committed, ⟨rfl, [said "user" "c"], rfl⟩, ?_⟩
  rw [validateSessionLineage, plan]
  rfl

end Turns

end Muser.Prompt
