import Muser.Atem.Constrained

/-! # Sentences of the grammar for required tool calls

The reasoning that may come first is any text up to a mark of a phase's end, and a text may have another
such mark with a phase behind it that is addressed to nobody who is known.
-/

namespace Muser.Atem

open Text Gbnf

variable {Value : Type} (outside : Outside Value)

/-- A text, as the matcher reads it. -/
def characters (text : Text) : List Input := text.map .character

theorem characters_append (text text' : Text) : characters (text ++ text') = characters text ++ characters text' :=
    List.map_append

theorem flatten_call (front name middle back : Text) {words : List (List Input)} (none : words.flatten = []) :
    ([characters front, characters name, characters middle, []] ++ words ++ [characters back, []]).flatten =
      characters (front ++ (name ++ (middle ++ back))) := by
  rw [List.flatten_append, List.flatten_append, none]
  simp only [characters_append, List.flatten_cons, List.flatten_nil, List.append_nil, List.append_assoc]

theorem flatten_sentence (reasoning front recipient before calls behind : Text) :
    [characters reasoning, [], characters front, characters recipient, characters before, [], characters calls,
      characters behind].flatten =
      characters (reasoning ++ (front ++ (recipient ++ (before ++ (calls ++ behind))))) := by
  simp only [characters_append, List.flatten_cons, List.flatten_nil, List.nil_append, List.append_nil]

section Sentence

variable {lines : List Line}

theorem means_line {line : Line} (mem : line ∈ lines) {word : List Input}
    (means : Means (lines.map Line.definition) line.alternatives word) :
    Means (lines.map Line.definition) (nameAtom line.name) word := .name (List.mem_map_of_mem mem) means

theorem means_literal {definitions : Definitions} (text : Text) : Means definitions (literalItem text)
    (characters text) := .once .literal

variable (first : ToolDefinition) (others : List ToolDefinition) (parallel : Bool)

abbrev requiredDefinitions : Definitions := (requiredLines first others parallel).map Line.definition

theorem means_layout : Means (requiredDefinitions first others parallel) (nameItem "layout".toList) [] := by
  have mem : layoutLine ∈ requiredLines first others parallel := by simp [requiredLines]
  have line : Means (requiredDefinitions first others parallel) layoutLine.alternatives [] :=
    .one (means_inSequence (.cons (means_none whiteSpace none) .nil))
  exact .once (means_line mem line)

theorem means_assistant : Means (requiredDefinitions first others parallel) (nameItem "assistant-prefix".toList) [] := by
  have mem : assistantLine ∈ requiredLines first others parallel := by simp [requiredLines]
  have line : Means (requiredDefinitions first others parallel) assistantLine.alternatives [] :=
    .one (means_inSequence (.cons (means_none (.literal "<|start|>assistant".toList) (some 1)) .nil))
  exact .once (means_line mem line)

theorem means_any (character : Char) : Means (requiredDefinitions first others parallel) (nameAtom "any".toList)
    [.character character] := by
  have mem : anyLine ∈ requiredLines first others parallel := by simp [requiredLines]
  have within : ∃ range ∈ [(Char.ofNat 0, Char.ofNat 0xD7FF), (Char.ofNat 0xE000, Char.ofNat 0x10FFFF)],
      range.1 ≤ character ∧ character ≤ range.2 := by
    rcases Utf8.toNat_valid character with low | ⟨above, below⟩
    · refine ⟨_, List.mem_cons_self .., ?_, ?_⟩
      · exact Nat.zero_le _
      · exact Nat.le_of_lt_succ low
    · refine ⟨_, List.mem_cons_of_mem _ (List.mem_cons_self ..), ?_, ?_⟩
      · exact above
      · exact Nat.le_of_lt_succ below
  have line : Means (requiredDefinitions first others parallel) anyLine.alternatives [.character character] :=
    .one (means_inSequence (.cons (Means.once (.characterClass ⟨fun _ => rfl, fun _ => within⟩)) .nil))
  exact means_line mem line

/-- Reasoning may be any text. -/
theorem means_reasoning (text : Text) : Means (requiredDefinitions first others parallel) (nameAtom "reasoning-phase".toList)
    (characters (" to=self<|message|>".toList ++ (text ++ "<|eom|>".toList))) := by
  have mem : reasoningLine ∈ requiredLines first others parallel := by simp [requiredLines]
  have any : Means (requiredDefinitions first others parallel) (.repeated (nameAtom "any".toList) 0 none)
      (characters text) := by
    have each : Means (requiredDefinitions first others parallel) (.repeated (nameAtom "any".toList) 0 none)
        (text.map fun character => [Input.character character]).flatten := .repeated _ (by
        intro word mem
        obtain ⟨character, -, rfl⟩ := List.mem_map.mp mem
        exact means_any first others parallel character) (Nat.zero_le _) no_maximum
    have same : (text.map fun character => [Input.character character]).flatten = characters text := by
      rw [characters, ← List.flatMap_def]
      exact List.map_eq_flatMap.symm
    rwa [same] at each
  have line : Means (requiredDefinitions first others parallel) reasoningLine.alternatives _ :=
    .one (means_inSequence (.cons (means_assistant first others parallel)
      (.cons (means_literal _) (.cons any (.cons (means_literal _) .nil)))))
  have whole : [[], characters " to=self<|message|>".toList, characters text, characters "<|eom|>".toList].flatten =
      characters (" to=self<|message|>".toList ++ (text ++ "<|eom|>".toList)) := by
    simp only [characters_append, List.flatten_cons, List.flatten_nil, List.nil_append, List.append_nil]
  rw [← whole]
  exact means_line mem line

/-- A call of the first tool without parameters. -/
def callText (name : Text) : Text := "<atem:invoke name=\"".toList ++ (name ++ ("\">".toList ++ "</atem:invoke>".toList))

theorem means_invoke : Means (requiredDefinitions first others parallel) (nameItem (invokeRule 0))
    (characters (callText first.name)) := by
  have mem : invokeLine 0 first ∈ requiredLines first others parallel := by
    refine List.mem_append_right _ (List.mem_flatMap.mpr ⟨(first, 0), List.mem_cons_self .., ?_⟩)
    rw [toolLines]
    split
    · exact List.mem_singleton_self _
    · exact List.mem_cons_of_mem _ (List.mem_singleton_self _)
  have parameters : ∃ words, List.Forall₂ (Means (requiredDefinitions first others parallel))
      (if (parameterName first.parameters).isEmpty then [] else [.repeated (nameAtom (parameterRule 0)) 0 none])
        words ∧ words.flatten = [] := by
    split
    · exact ⟨[], .nil, rfl⟩
    · exact ⟨[[]], .cons (means_none _ _) .nil, rfl⟩
  obtain ⟨words, each, none⟩ := parameters
  have layout := means_layout first others parallel
  have front : List.Forall₂ (Means (requiredDefinitions first others parallel))
      [literalItem "<atem:invoke name=\"".toList, literalItem first.name, literalItem "\">".toList, nameItem "layout".toList]
      [characters "<atem:invoke name=\"".toList, characters first.name, characters "\">".toList, []] :=
    .cons (means_literal _) (.cons (means_literal _) (.cons (means_literal _) (.cons layout .nil)))
  have back : List.Forall₂ (Means (requiredDefinitions first others parallel)) [literalItem "</atem:invoke>".toList,
    nameItem "layout".toList]
      [characters "</atem:invoke>".toList, []] := .cons (means_literal _) (.cons layout .nil)
  have line : Means (requiredDefinitions first others parallel) (invokeLine 0 first).alternatives _ :=
    .one (means_inSequence (List.rel_append (List.rel_append front each) back))
  have whole := flatten_call "<atem:invoke name=\"".toList first.name "\">".toList "</atem:invoke>".toList none
  have named := means_line mem line
  rw [whole] at named
  exact .once named

/-- Reasoning and then a call of the first tool. -/
def sentence (reasoning name : Text) : Text :=
  " to=self<|message|>".toList ++ (reasoning ++ "<|eom|>".toList) ++ (" to=".toList ++ ("tool".toList ++
    ("<|message|><atem:function_calls>".toList ++ (callText name ++ "</atem:function_calls><|eom|>".toList))))

/-- Any reasoning and a call of the first tool are a sentence. -/
theorem means_sentence (reasoning : Text) :
    Means (requiredDefinitions first others parallel) (.name "root") (characters (sentence reasoning first.name)) := by
  have mem : rootLine first others parallel ∈ requiredLines first others parallel := List.mem_cons_self ..
  have recipient : Means (requiredDefinitions first others parallel)
      (choice (literalItem first.name) (others.map (fun tool => literalItem tool.name) ++
        [literalItem "tool".toList])) (characters "tool".toList) :=
    .group (means_oneOf (show literalItem "tool".toList ∈ _ by simp) (means_literal _))
  have invokes : Means (requiredDefinitions first others parallel)
      (choice (nameItem (invokeRule 0)) ((others.zipIdx 1).map fun both => nameItem (invokeRule both.2)))
        (characters (callText first.name)) :=
    .group (means_oneOf (List.mem_cons_self ..) (means_invoke first others parallel))
  have calls : Means (requiredDefinitions first others parallel)
      (if parallel then .repeated (choice (nameItem (invokeRule 0)) ((others.zipIdx 1).map fun both =>
        nameItem (invokeRule both.2))) 1 none
        else .once (choice (nameItem (invokeRule 0)) ((others.zipIdx 1).map fun both =>
          nameItem (invokeRule both.2)))) (characters (callText first.name)) := by
    split
    · exact means_once_repeated invokes le_rfl nofun
    · exact .once invokes
  have thought : Means (requiredDefinitions first others parallel)
      (.repeated (nameAtom "reasoning-phase".toList) 0 (some 1)) _ :=
    means_once_repeated (means_reasoning first others parallel reasoning) (Nat.zero_le _) fun most is =>
      by cases is; exact le_rfl
  have line : Means (requiredDefinitions first others parallel) (rootLine first others parallel).alternatives _ :=
    .one (means_inSequence (.cons thought
      (.cons (means_assistant first others parallel) (.cons (means_literal _) (.cons (Means.once recipient)
      (.cons (means_literal _) (.cons (means_layout first others parallel)
        (.cons calls (.cons (means_literal _) .nil)))))))))
  have whole := flatten_sentence (" to=self<|message|>".toList ++
    (reasoning ++ "<|eom|>".toList)) " to=".toList "tool".toList
    "<|message|><atem:function_calls>".toList (callText first.name) "</atem:function_calls><|eom|>".toList
  have named := means_line mem line
  rw [whole] at named
  exact named

/-! ### Names -/

theorem own_name {text : Text} (is : text.head? ≠ some '_') : ∀ name ∈ (nameAtom text).refers,
    name.toList.head? ≠ some '_' := by
  refine List.forall_mem_singleton.mpr ?_
  rwa [String.toList_ofList]

theorem own_names {items : List (Phrase .item)} (each : ∀ item ∈ items, ∀ name ∈ item.refers, name.toList.head? ≠ some '_') :
    ∀ name ∈ (Phrase.one (inSequence items)).refers, name.toList.head? ≠ some '_' := by
  intro name mem
  rw [Phrase.refers, refers_inSequence] at mem
  obtain ⟨item, within, mem⟩ := List.mem_flatMap.mp mem
  exact each item within name mem

theorem own_choice {item : Phrase .item} {items : List (Phrase .item)}
    (each : ∀ other ∈ item :: items, ∀ name ∈ other.refers, name.toList.head? ≠ some '_') :
    ∀ name ∈ (choice item items).refers, name.toList.head? ≠ some '_' := by
  intro name mem
  rw [choice, Phrase.refers, refers_oneOf] at mem
  obtain ⟨other, within, mem⟩ := List.mem_flatMap.mp mem
  exact each other within name mem

theorem own_line {line : Line} (named : line.name.head? ≠ some '_')
    (each : ∀ name ∈ line.alternatives.refers, name.toList.head? ≠ some '_') :
    line.Own := by
  refine List.forall_mem_cons.mpr ⟨?_, each⟩
  rwa [String.toList_ofList]

theorem head_append {front : Text} {first : Char} (is : front.head? = some first) (text : Text) (other : first ≠ '_') :
    (front ++ text).head? ≠ some '_' := by
  rw [List.head?_append, is]
  exact fun same => other (Option.some.inj same)

theorem invokeRule_head (index : ℕ) : (invokeRule index).head? ≠ some '_' :=
  head_append (show "tool-invoke-".toList.head? = some 't' by decide) _ (by decide)

theorem parameterRule_head (index : ℕ) : (parameterRule index).head? ≠ some '_' :=
  head_append (show "tool-parameter-".toList.head? = some 't' by decide) _ (by decide)

theorem invokeLine_own (index : ℕ) (tool : ToolDefinition) : (invokeLine index tool).Own := by
  refine own_line (invokeRule_head index) (own_names ?_)
  have layout := own_name (show "layout".toList.head? ≠ some '_' by decide)
  refine List.forall_mem_append.mpr ⟨List.forall_mem_append.mpr ⟨?_, ?_⟩, ?_⟩
  · exact List.forall_mem_cons.mpr ⟨nofun,
      List.forall_mem_cons.mpr ⟨nofun, List.forall_mem_cons.mpr ⟨nofun, List.forall_mem_singleton.mpr layout⟩⟩⟩
  · split
    · exact nofun
    · exact List.forall_mem_singleton.mpr (own_name (parameterRule_head index))
  · exact List.forall_mem_cons.mpr ⟨nofun, List.forall_mem_singleton.mpr layout⟩

theorem parameterLine_own (index : ℕ) (tool : ToolDefinition) : (parameterLine index tool).Own := by
  refine own_line (parameterRule_head index) (own_names ?_)
  have layout := own_name (show "layout".toList.head? ≠ some '_' by decide)
  have character := own_name (show "parameter-char".toList.head? ≠ some '_' by decide)
  rw [List.cons_append]
  refine List.forall_mem_cons.mpr ⟨List.forall_mem_nil _, List.forall_mem_append.mpr ⟨?_, ?_⟩⟩
  · rw [parameterItems]
    split
    · exact List.forall_mem_cons.mpr ⟨List.forall_mem_nil _, List.forall_mem_singleton.mpr (List.forall_mem_nil _)⟩
    · split
      · exact List.forall_mem_nil _
      · next first others is =>
        refine List.forall_mem_singleton.mpr (own_choice ?_)
        rw [← is, parameterLiterals]
        exact List.forall_mem_map.mpr fun _ _ => List.forall_mem_nil _
  · exact List.forall_mem_cons.mpr ⟨List.forall_mem_nil _, List.forall_mem_cons.mpr ⟨character,
      List.forall_mem_cons.mpr ⟨List.forall_mem_nil _, List.forall_mem_singleton.mpr layout⟩⟩⟩

theorem rootLine_own : (rootLine first others parallel).Own := by
  refine own_line (show "root".toList.head? ≠ some '_' by decide) (own_names ?_)
  have reasoning := own_name (show "reasoning-phase".toList.head? ≠ some '_' by decide)
  have assistant := own_name (show "assistant-prefix".toList.head? ≠ some '_' by decide)
  have layout := own_name (show "layout".toList.head? ≠ some '_' by decide)
  have recipients : ∀ name ∈ (choice (literalItem first.name) (others.map (fun tool => literalItem tool.name) ++
    [literalItem "tool".toList])).refers,
      name.toList.head? ≠ some '_' := by
    refine own_choice (List.forall_mem_cons.mpr ⟨nofun,
      List.forall_mem_append.mpr ⟨?_, List.forall_mem_singleton.mpr nofun⟩⟩)
    exact List.forall_mem_map.mpr fun _ _ => nofun
  have invokes : ∀ name ∈ (choice (nameItem (invokeRule 0)) ((others.zipIdx 1).map fun both =>
    nameItem (invokeRule both.2))).refers,
      name.toList.head? ≠ some '_' := by
    refine own_choice (List.forall_mem_cons.mpr ⟨own_name (invokeRule_head 0), ?_⟩)
    exact List.forall_mem_map.mpr fun both _ => own_name (invokeRule_head both.2)
  refine List.forall_mem_cons.mpr ⟨reasoning, List.forall_mem_cons.mpr ⟨assistant, List.forall_mem_cons.mpr ⟨nofun,
    List.forall_mem_cons.mpr ⟨recipients, List.forall_mem_cons.mpr ⟨nofun, List.forall_mem_cons.mpr ⟨layout,
    List.forall_mem_cons.mpr ⟨?_, List.forall_mem_singleton.mpr nofun⟩⟩⟩⟩⟩⟩⟩
  split
  · exact invokes
  · exact invokes

theorem requiredLines_own : ∀ line ∈ requiredLines first others parallel, line.Own := by
  have assistant := own_name (show "assistant-prefix".toList.head? ≠ some '_' by decide)
  have any := own_name (show "any".toList.head? ≠ some '_' by decide)
  refine List.forall_mem_append.mpr ⟨?_, ?_⟩
  · refine List.forall_mem_cons.mpr ⟨rootLine_own first others parallel,
      List.forall_mem_cons.mpr ⟨?_, List.forall_mem_cons.mpr ⟨?_,
      List.forall_mem_cons.mpr ⟨?_, List.forall_mem_cons.mpr ⟨?_, List.forall_mem_singleton.mpr ?_⟩⟩⟩⟩⟩
    · refine own_line (show "reasoning-phase".toList.head? ≠ some '_' by decide) (own_names ?_)
      exact List.forall_mem_cons.mpr ⟨assistant,
        List.forall_mem_cons.mpr ⟨nofun, List.forall_mem_cons.mpr ⟨any, List.forall_mem_singleton.mpr nofun⟩⟩⟩
    · exact own_line (show "assistant-prefix".toList.head? ≠ some '_' by decide)
        (own_names (List.forall_mem_singleton.mpr nofun))
    · exact own_line (show "any".toList.head? ≠ some '_' by decide) (own_names (List.forall_mem_singleton.mpr nofun))
    · exact own_line (show "parameter-char".toList.head? ≠ some '_' by decide)
        (own_names (List.forall_mem_singleton.mpr nofun))
    · exact own_line (show "layout".toList.head? ≠ some '_' by decide) (own_names (List.forall_mem_singleton.mpr nofun))
  · intro line mem
    obtain ⟨both, -, mem⟩ := List.mem_flatMap.mp mem
    rw [toolLines] at mem
    split at mem
    · obtain rfl := List.mem_singleton.mp mem
      exact invokeLine_own both.2 both.1
    · rcases List.mem_cons.mp mem with rfl | mem
      · exact parameterLine_own both.2 both.1
      · obtain rfl := List.mem_singleton.mp mem
        exact invokeLine_own both.2 both.1

end Sentence

/-- What thinks nothing. -/
def thoughtless : Text := " to=self<|message|>".toList

/-- What is addressed to nobody who is known. -/
def stray : Text := " to=x<|message|>y".toList

/-- A reasoning with such a phase in it. -/
def intruder : Text := phaseEnd ++ stray

theorem split_phase {before after : Text} (clear : Clear phaseEnd before) :
    split phaseEnd (before ++ phaseEnd ++ after) = before :: split phaseEnd after := by
  rw [split_eq (by decide), (splitOnce_eq_some (by decide)).mpr ⟨rfl, clear⟩]

theorem add_thoughtless (output : ParsedAtemOutput) : addPhase outside output thoughtless = .ok output := by
  have addressed : address thoughtless = .ok (selfRecipient, []) := by decide
  rw [addPhase, addressed]
  rfl

/-- The recipient of the stray phase. -/
def strayRecipient : Text := "x".toList

theorem add_stray (output : ParsedAtemOutput) : addPhase outside output stray =
    .error s!"assistant emitted recipient {outside.debug strayRecipient} without an ATEM function-call block" := by
  have addressed : address stray = .ok ("x".toList, "y".toList) := by decide
  have filled : "y".toList.isEmpty = false := by decide
  have other : "x".toList ≠ selfRecipient := by decide
  have callless : includes "y".toList callsOpen = false := by decide
  have unknown : "x".toList ≠ userRecipient := by decide
  rw [addPhase, addressed, strayRecipient]
  change output.add outside "x".toList "y".toList = _
  rw [ParsedAtemOutput.add, filled, if_neg Bool.false_ne_true, if_neg other, callless, if_neg Bool.false_ne_true,
    if_neg unknown]

/-- A text with such a phase in its reasoning is refused. -/
theorem parse_intruder (name : Text) : parseAtemOutput outside (sentence intruder name) =
    .error s!"assistant emitted recipient {outside.debug strayRecipient} without an ATEM function-call block" := by
  have whole : ∃ rest, sentence intruder name = thoughtless ++ (intruder ++ phaseEnd) ++ rest := ⟨_, rfl⟩
  obtain ⟨rest, is⟩ := whole
  have cut : ∀ rest : Text, thoughtless ++ (intruder ++ phaseEnd) ++ rest = thoughtless ++ phaseEnd ++
      (stray ++ phaseEnd ++ rest) := by
    intro rest
    simp only [intruder, List.append_assoc]
  have kept : remove turnEnd (thoughtless ++ (intruder ++ phaseEnd) ++ rest) = thoughtless ++
      (intruder ++ phaseEnd) ++ remove turnEnd rest :=
    remove_front (by decide) (apart_of_tails rest (by decide))
  rw [parseAtemOutput, is, kept, cut, split_phase (apart_of_tails phaseEnd (by decide)),
    split_phase (apart_of_tails phaseEnd (by decide)), List.foldlM_cons, add_thoughtless]
  have refused : ∀ (output : ParsedAtemOutput) (phases : List Text), (stray :: phases).foldlM (addPhase outside) output =
      .error s!"assistant emitted recipient {outside.debug strayRecipient} without an ATEM function-call block" := by
    intro output phases
    rw [List.foldlM_cons, add_stray]
    rfl
  exact refused ⟨[], [], []⟩ (split phaseEnd (remove turnEnd rest))

/-- A text that is a sentence by what a source of a grammar says. -/
def Sentence (source text : Text) : Prop :=
  ∃ definitions, SpelledDefinitions definitions (Utf8.encodeAll source) ∧ Means definitions (.name "root") (characters text)

/-- A required call is made by an output. -/
structure Answers (request : ChatTools) (output : ParsedAtemOutput) : Prop where
  some_ : output.toolCalls ≠ []
  eligible : ∀ call ∈ output.toolCalls, ∃ tool ∈ request.eligible, tool.name = call.name
  alone : request.parallelToolCalls = false → output.toolCalls.length = 1

/-- Every sentence of the grammar for a request is parsed into the calls that are required. -/
def SentencesAnswer (request : ChatTools) : Prop := ∀ source, requiredToolGbnf request = .ok source → ∀ text,
    Sentence source text →
  ∃ output, parseAtemOutput outside text = .ok output ∧ Answers request output

variable {request : ChatTools}

/-- A request that is valid and that requires a call has a tool that may be called. -/
theorem eligible_of_valid {schemaGrammar : JsonValue → Except String Text} {debug : Text → String}
    (valid : validateTools schemaGrammar debug request = .ok ()) (required : request.required = true) :
    ∃ first others, request.eligible = first :: others := by
  have chosen : ∃ tool ∈ request.tools.getD [], (request.selected.all fun name => tool.name == name) = true := by
    simp only [validateTools, check_eq_ok_iff] at valid
    obtain ⟨-, chosen⟩ := valid
    rw [ChatTools.required] at required
    rw [ChatTools.selected]
    cases choice : request.toolChoice with
    | none =>
      rw [choice] at required
      cases required
    | some choice_ =>
      rw [choice] at required chosen
      cases choice_ with
      | mode mode =>
        simp only [check_eq_ok_iff, reject_eq_ok_iff] at chosen
        rw [show (mode == "required".toList) = true from required, Bool.true_and,
          List.isEmpty_eq_false_iff_exists_mem] at chosen
        obtain ⟨-, tool, mem⟩ := chosen
        exact ⟨tool, mem, rfl⟩
      | named kind name =>
        simp only [reject_eq_ok_iff, Bool.or_eq_false_iff, Bool.not_eq_false', List.any_eq_true] at chosen
        obtain ⟨-, tool, mem, same⟩ := chosen
        exact ⟨tool, mem, same⟩
  obtain ⟨tool, mem, is⟩ := chosen
  exact List.exists_cons_of_ne_nil (List.ne_nil_of_mem (List.mem_filter.mpr ⟨mem, is⟩))

variable {others : List ToolDefinition} {first : ToolDefinition} {source : Text}

/-- The source of a grammar for required calls spells its lines. -/
theorem required_spelled
    (eligible : request.eligible = first :: others) (written : requiredToolGbnf request = .ok source) :
    SpelledDefinitions (requiredDefinitions first others request.parallelToolCalls) (Utf8.encodeAll source) := by
  rw [requiredToolGbnf_eq eligible] at written
  cases written
  exact spelled_lines requiredLines_fit [] (.inl rfl)

/-- The grammar for a request has the sentences that its source says. -/
theorem sentence_iff_derives {grammar : Grammar}
    (eligible : request.eligible = first :: others) (written : requiredToolGbnf request = .ok source)
    (parsed : parse source "root" = some (.ok grammar)) (text : Text) :
    Sentence source text ↔ grammar.Derives grammar.root (characters text) := by
  have spelled := required_spelled eligible written
  have distinct := distinct_of_own (requiredLines_own first others request.parallelToolCalls)
  have root : "root" ∈ (requiredDefinitions first others request.parallelToolCalls).writes :=
    List.mem_flatMap.mpr ⟨_, List.mem_cons_self .., List.mem_cons_self ..⟩
  rw [parse_derives_iff parsed spelled distinct root]
  constructor
  · rintro ⟨definitions, spelled', means⟩
    obtain rfl := spelled'.unique spelled
    exact means
  · exact fun means => ⟨_, spelled, means⟩

/-- **Required calls.** No valid request that requires a call has a grammar whose sentences are all parsed
into calls: its source is written, the grammar that is parsed from it has the sentences that the source
says, and one of these is refused by the parser of the output. -/
theorem sentences_never_answer (schemaGrammar : JsonValue → Except String Text) (request : ChatTools)
    (valid : validateTools schemaGrammar outside.debug request = .ok ()) (required : request.required = true) :
    ¬SentencesAnswer outside request ∧ ∃ source, requiredToolGbnf request = .ok source ∧
      (∀ grammar, parse source "root" = some (.ok grammar) → ∀ text,
        Sentence source text ↔ grammar.Derives grammar.root (characters text)) ∧
      ∃ text message, Sentence source text ∧ parseAtemOutput outside text = .error message := by
  obtain ⟨first, others, eligible⟩ := eligible_of_valid valid required
  have written := requiredToolGbnf_eq eligible
  have refused := parse_intruder outside first.name
  have is : Sentence _ (sentence intruder first.name) :=
    ⟨_, required_spelled eligible written, means_sentence first others request.parallelToolCalls intruder⟩
  refine ⟨fun answer => ?_, _, written, fun grammar parsed => sentence_iff_derives eligible written parsed, _,
    _, is, refused⟩
  obtain ⟨output, parsed, -⟩ := answer _ written _ is
  rw [refused] at parsed
  cases parsed

/-- A request that must be answered by a call of its one tool. -/
def weather : ChatTools where
  tools := some [⟨"function".toList, "weather.get".toList, .object [("additionalProperties".toList, .bool false)]⟩]
  toolChoice := some (.mode "required".toList)
  parallelToolCalls := false

/-- Every schema has the same grammar. -/
def letter (_ : JsonValue) : Except String Text := .ok "root ::= \"a\"\n".toList

theorem weather_valid : validateTools letter texts.debug weather = .ok () := by decide +kernel

theorem sentences_never_answer_weather : ¬SentencesAnswer texts weather :=
  (sentences_never_answer texts letter weather weather_valid (by decide)).1

theorem weather_eligible : weather.eligible =
    [⟨"function".toList, "weather.get".toList, .object [("additionalProperties".toList, .bool false)]⟩] := rfl

/-- The grammar that is parsed from what is written for the request. -/
def weatherGrammar : Grammar :=
  (((requiredToolGbnf weather).toOption.bind (parse · "root")).bind Except.toOption).get (by decide +kernel)

theorem weather_parsed : ∃ source, requiredToolGbnf weather = .ok source ∧
    parse source "root" = some (.ok weatherGrammar) := by
  have got : ((requiredToolGbnf weather).toOption.bind (parse · "root")).bind Except.toOption = some weatherGrammar :=
    (Option.some_get _).symm
  obtain ⟨answer, parsed, is⟩ := Option.bind_eq_some_iff.mp got
  obtain ⟨source, written, parsed⟩ := Option.bind_eq_some_iff.mp parsed
  rw [toOption_eq_some_iff] at written is
  exact ⟨source, written, by rw [parsed, is]⟩

/-- The grammar for one tool is parsed, and a sentence of it is refused. -/
theorem weather_refused : validateTools letter texts.debug weather = .ok () ∧ weather.required = true ∧
    ∃ source grammar, requiredToolGbnf weather = .ok source ∧ parse source "root" = some (.ok grammar) ∧
      grammar.Derives grammar.root (characters (sentence intruder "weather.get".toList)) ∧
      ∃ message, parseAtemOutput texts (sentence intruder "weather.get".toList) = .error message := by
  obtain ⟨source, written, parsed⟩ := weather_parsed
  have same := requiredToolGbnf_eq weather_eligible
  rw [written] at same
  cases same
  refine ⟨weather_valid, by decide, _, weatherGrammar, written, parsed, ?_, _, parse_intruder texts _⟩
  exact (sentence_iff_derives weather_eligible written parsed _).mp ⟨_, required_spelled weather_eligible written,
    means_sentence _ _ _ intruder⟩

end Muser.Atem
