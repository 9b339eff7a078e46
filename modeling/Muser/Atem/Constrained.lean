import Muser.Atem.Output

/-! # What the grammar for required tool calls says

The lines of the grammar and the phrases they are written for.
-/

namespace Muser.Atem

open Text Gbnf

def literalItem (text : Text) : Phrase .item := .once (.literal text)

def nameAtom (name : Text) : Phrase .atom := .name (String.ofList name)

def nameItem (name : Text) : Phrase .item := .once (nameAtom name)

/-- One of some literals or names. -/
def choice (first : Phrase .item) (others : List (Phrase .item)) : Phrase .atom := .group (oneOf first others)

theorem written_choice {first : Phrase .item} {others : List (Phrase .item)} {text : Text} {texts : List Text}
    (here : Written first text)
    (each : List.Forall₂ Written others texts) : Written (choice first others) ('(' :: (bars text texts ++ [')'])) :=
  .group (written_oneOf here each [] nofun)

/-- A text that may be the name of a rule. -/
def RuleName (name : Text) : Prop := name ≠ [] ∧ ∀ character ∈ name, inName character = true

instance (name : Text) : Decidable (RuleName name) :=
  decidable_of_iff (name ≠ [] ∧ name.all inName = true) (and_congr_right fun _ => List.all_eq_true)

theorem written_name {name : Text} (is : RuleName name) : Written (nameAtom name) name := .name is.1 is.2

theorem written_literal (text : Text) : Written (literalItem text) (quotedLiteral text) := .once (.literal text)

/-! ## The classes -/

def wordStart : Phrase .atom := .characterClass false [('A', 'Z'), ('a', 'z'), ('_', '_')]

def wordRest : Phrase .atom := .characterClass false [('A', 'Z'), ('a', 'z'), ('0', '9'), ('_', '_'), ('.', '.'), ('-', '-')]

def noTag : Phrase .atom := .characterClass true [('<', '<')]

def whiteSpace : Phrase .atom := .characterClass false [(' ', ' '), ('\t', '\t'), ('\n', '\n'), ('\r', '\r')]

def anyCharacter : Phrase .atom :=
    .characterClass false [(Char.ofNat 0, Char.ofNat 0xD7FF), (Char.ofNat 0xE000, Char.ofNat 0x10FFFF)]

section Classes

variable {character upper : Char} {byte byte' : UInt8} {others : List (Char × Char)} {behind rest : Bytes}

theorem spelled_ascii (is : Utf8.encode character = [byte]) (plain : byte ≠ backslash) :
    SpelledCharacter character (byte :: behind) behind := by
  have spelled : SpelledCharacter character (Utf8.encode character ++ behind) behind :=
    .plain (by rw [is]; exact fun same => plain (Option.some.inj same))
  rwa [is] at spelled

/-- A character of a class that is no end of a range. -/
theorem ranges_one (is : Utf8.encode character = [byte]) (plain : byte ≠ backslash ∧ byte ≠ ascii ']')
    (alone : ¬opensRange behind)
    (more : SpelledRanges others behind rest) : SpelledRanges ((character, character) :: others) (byte :: behind) rest :=
  .single (fun same => plain.2 (Option.some.inj same)) (spelled_ascii is plain.1) alone more

/-- A range of a class. -/
theorem ranges_two (is : Utf8.encode character = [byte]) (plain : byte ≠ backslash ∧ byte ≠ ascii ']')
    (is' : Utf8.encode upper = [byte'])
    (plain' : byte' ≠ backslash ∧ byte' ≠ ascii ']') (ordered : character ≤ upper)
    (more : SpelledRanges others behind rest) :
    SpelledRanges ((character, upper) :: others) (byte :: ascii '-' :: byte' :: behind) rest :=
  .range (fun same => plain.2 (Option.some.inj same)) (spelled_ascii is plain.1)
    ⟨rfl, fun same => plain'.2 (Option.some.inj same)⟩ (spelled_ascii is' plain'.1) ordered more

/-- What starts with another byte opens no range. -/
theorem alone_of_head (differs : byte ≠ ascii '-') : ¬opensRange (byte :: behind) := fun opens =>
    differs (Option.some.inj opens.1)

theorem written_wordStart : Written wordStart "[A-Za-z_]".toList := by
  refine @Written.characterClass false _ "A-Za-z_]".toList (by decide) (by decide) fun rest => ?_
  exact ranges_two rfl (by decide) rfl (by decide) (by decide) (ranges_two rfl (by decide) rfl (by decide) (by decide)
    (ranges_one rfl (by decide) (alone_of_head (by decide)) .close))

theorem written_wordRest : Written wordRest "[A-Za-z0-9_.-]".toList := by
  refine @Written.characterClass false _ "A-Za-z0-9_.-]".toList (by decide) (by decide) fun rest => ?_
  refine ranges_two rfl (by decide) rfl (by decide) (by decide) (ranges_two rfl (by decide) rfl (by decide) (by decide)
    (ranges_two rfl (by decide) rfl (by decide) (by decide) (ranges_one rfl (by decide) (alone_of_head (by decide)) ?_)))
  exact ranges_one rfl (by decide) (fun opens => opens.2 rfl) (ranges_one rfl (by decide) (alone_of_head (by decide)) .close)

theorem written_noTag : Written noTag "[^<]".toList := by
  refine @Written.characterClass true _ "<]".toList (by decide) (by decide) fun rest => ?_
  exact ranges_one rfl (by decide) (alone_of_head (by decide)) .close

/-- An escaped character of a class that is no end of a range. -/
theorem ranges_escape (letter : UInt8) (known : (letter, character) ∈ shortEscapes) (alone : ¬opensRange behind)
    (more : SpelledRanges others behind rest) : SpelledRanges ((character, character) :: others)
    (backslash :: letter :: behind) rest :=
  .single (fun same => absurd (Option.some.inj same) (by decide)) (.short known) alone more

theorem written_whiteSpace : Written whiteSpace "[ \\t\\n\\r]".toList := by
  refine @Written.characterClass false _ " \\t\\n\\r]".toList (by decide) (by decide) fun rest => ?_
  exact ranges_one rfl (by decide) (alone_of_head (by decide))
    (ranges_escape (ascii 't') (by decide) (alone_of_head (by decide))
    (ranges_escape (ascii 'n') (by decide) (alone_of_head (by decide))
      (ranges_escape (ascii 'r') (by decide) (alone_of_head (by decide))
      .close)))

theorem written_anyCharacter : Written anyCharacter "[\\U00000000-\\uD7FF\\uE000-\\U0010FFFF]".toList := by
  refine @Written.characterClass false _ "\\U00000000-\\uD7FF\\uE000-\\U0010FFFF]".toList (by decide) (by decide)
    fun rest => ?_
  refine .range (fun same => absurd (Option.some.inj same) (by decide))
    (@SpelledCharacter.hex (ascii 'U') 8 (Utf8.encodeAll "00000000".toList) _ _ (by decide) rfl (by decide)) ⟨rfl,
      fun same => absurd (Option.some.inj same) (by decide)⟩
    (@SpelledCharacter.hex (ascii 'u') 4 (Utf8.encodeAll "D7FF".toList) _ _ (by decide) rfl (by decide)) (by decide) ?_
  exact .range (fun same => absurd (Option.some.inj same) (by decide))
    (@SpelledCharacter.hex (ascii 'u') 4 (Utf8.encodeAll "E000".toList) _ _ (by decide) rfl (by decide)) ⟨rfl,
      fun same => absurd (Option.some.inj same) (by decide)⟩
    (@SpelledCharacter.hex (ascii 'U') 8 (Utf8.encodeAll "0010FFFF".toList) _ _ (by decide) rfl (by decide))
      (by decide) .close

end Classes

/-! ## The lines -/

/-- The names of a tool's parameters, as literals. -/
def parameterLiterals (parameters : JsonValue) : List (Phrase .item) :=
  ((parameters.get "properties".toList).bind JsonValue.asObject).getD [] |>.map fun member => literalItem member.1

/-- What a parameter of a tool may be named. -/
def parameterItems (parameters : JsonValue) : List (Phrase .item) :=
  if parameters.additional then [.once wordStart, .repeated wordRest 0 none]
  else match parameterLiterals parameters with
    | [] => []
    | first :: others => [.once (choice first others)]

theorem spaced_parameterItems (parameters : JsonValue) (some_ : parameterName parameters ≠ []) :
    ∃ texts, List.Forall₂ Spaced (parameterItems parameters) texts ∧ texts.flatten = ' ' :: parameterName parameters := by
  rw [parameterName] at some_ ⊢
  rw [parameterItems, parameterLiterals]
  by_cases additional : parameters.additional
  · rw [if_pos additional, if_pos additional]
    exact ⟨_, .cons (Written.once written_wordStart).spaced (.cons written_wordRest.star.spaced .nil), rfl⟩
  · rw [if_neg additional] at some_ ⊢
    rw [if_neg additional]
    generalize ((parameters.get "properties".toList).bind JsonValue.asObject).getD [] = members at some_ ⊢
    cases members with
    | nil => exact absurd rfl some_
    | cons first others =>
      have each : List.Forall₂ Written (others.map fun member => literalItem member.1) (others.map fun member =>
          quotedLiteral member.1) := by
        rw [List.forall₂_map_left_iff, List.forall₂_map_right_iff]
        exact List.forall₂_same.mpr fun member _ => written_literal member.1
      refine ⟨_, .cons (Written.once (written_choice (written_literal first.1) each)).spaced .nil, ?_⟩
      rw [List.flatten_cons, List.flatten_nil, List.append_nil]
      rfl

/-- The line of a tool's parameters. -/
def parameterLine (index : ℕ) (tool : ToolDefinition) : Line where
  name := parameterRule index
  alternatives := .one (inSequence (literalItem "<atem:parameter name=\"".toList :: parameterItems tool.parameters ++
    [literalItem "\">".toList, .repeated (nameAtom "parameter-char".toList) 0 none,
      literalItem "</atem:parameter>".toList, nameItem "layout".toList]))
  body := " \"<atem:parameter name=\\\"\" ".toList ++ parameterName tool.parameters ++
    " \"\\\">\" parameter-char* \"</atem:parameter>\" layout".toList

/-- The line of a tool's call. -/
def invokeLine (index : ℕ) (tool : ToolDefinition) : Line where
  name := invokeRule index
  alternatives := .one (inSequence ([literalItem "<atem:invoke name=\"".toList, literalItem tool.name,
    literalItem "\">".toList, nameItem "layout".toList] ++
    (if (parameterName tool.parameters).isEmpty then [] else [.repeated (nameAtom (parameterRule index)) 0 none]) ++
    [literalItem "</atem:invoke>".toList, nameItem "layout".toList]))
  body := " \"<atem:invoke name=\\\"\" ".toList ++ quotedLiteral tool.name ++ " \"\\\">\" layout ".toList ++
    (if (parameterName tool.parameters).isEmpty then [] else parameterRule index ++ ['*']) ++
      " \"</atem:invoke>\" layout".toList

/-- The lines of a tool. -/
def toolLines (index : ℕ) (tool : ToolDefinition) : List Line :=
  if (parameterName tool.parameters).isEmpty then
    [invokeLine index tool] else [parameterLine index tool, invokeLine index tool]

theorem toolLines_text (index : ℕ) (tool : ToolDefinition) :
    (toolLines index tool).flatMap Line.text = (toolRules index tool).flatMap fun rule => rule.1 ++ " ::= ".toList ++
      rule.2 ++ ['\n'] := by
  rw [toolLines, toolRules]
  split
  · next none =>
    simp only [List.flatMap_cons, List.flatMap_nil, Line.text, invokeLine, if_pos none]
    simp
  · next some_ =>
    simp only [List.flatMap_cons, List.flatMap_nil, Line.text, invokeLine, parameterLine, if_neg some_]
    simp

theorem inName_digit {character : Char} (digit : character.isDigit = true) : inName character = true := by
  rw [Char.isDigit_iff_toNat, show '0'.toNat = 48 from rfl, show '9'.toNat = 57 from rfl] at digit
  have value : (ascii character).toNat = character.toNat := by
    rw [ascii, Nat.toUInt8_eq, UInt8.toNat_ofNat']
    omega
  rw [inName, Bool.and_eq_true, decide_eq_true_iff]
  refine ⟨by omega, ?_⟩
  have is : Gbnf.isDigit (ascii character) = true := by
    rw [Gbnf.isDigit, Bool.and_eq_true, decide_eq_true_iff, decide_eq_true_iff, UInt8.le_iff_toNat_le,
      UInt8.le_iff_toNat_le, value]
    exact digit
  rw [isName, is]
  rfl

theorem ruleName_index {front : Text} (is : RuleName front) (index : ℕ) : RuleName (front ++ index.repr.toList) := by
  refine ⟨List.append_ne_nil_of_left_ne_nil is.1 _, fun character mem => ?_⟩
  rcases List.mem_append.mp mem with mem | mem
  · exact is.2 character mem
  · rw [Nat.repr_eq_ofList_toDigits, String.toList_ofList] at mem
    exact inName_digit (Nat.isDigit_of_mem_toDigits (by decide) (by decide) mem)

theorem ruleName_parameterRule (index : ℕ) : RuleName (parameterRule index) := ruleName_index (by decide) index

theorem ruleName_invokeRule (index : ℕ) : RuleName (invokeRule index) := ruleName_index (by decide) index

theorem written_layout : Spaced (nameItem "layout".toList) " layout".toList :=
    (Written.once (written_name (by decide))).spaced

theorem parameterLine_fits (index : ℕ) {tool : ToolDefinition} (some_ : parameterName tool.parameters ≠ []) :
    (parameterLine index tool).Fits := by
  obtain ⟨texts, each, whole⟩ := spaced_parameterItems tool.parameters some_
  obtain ⟨named, letters⟩ := ruleName_parameterRule index
  refine ⟨named, letters, .one ?_⟩
  have behind : List.Forall₂ Spaced [literalItem "\">".toList, .repeated (nameAtom "parameter-char".toList) 0 none,
      literalItem "</atem:parameter>".toList, nameItem "layout".toList] _ :=
    .cons (written_literal _).spaced (.cons (written_name (by decide)).star.spaced
      (.cons (written_literal _).spaced (.cons written_layout .nil)))
  have written := written_inSequence
    (.cons (written_literal "<atem:parameter name=\"".toList).spaced (List.rel_append each behind))
  rw [List.flatten_cons, List.flatten_append, whole] at written
  rw [parameterLine, List.append_assoc]
  exact written

theorem invokeLine_fits (index : ℕ) (tool : ToolDefinition) : (invokeLine index tool).Fits := by
  obtain ⟨named, letters⟩ := ruleName_invokeRule index
  refine ⟨named, letters, .one ?_⟩
  have front : List.Forall₂ Spaced [literalItem "<atem:invoke name=\"".toList, literalItem tool.name,
    literalItem "\">".toList,
      nameItem "layout".toList] _ :=
    .cons (written_literal _).spaced
      (.cons (written_literal _).spaced (.cons (written_literal _).spaced (.cons written_layout .nil)))
  by_cases closed : (parameterName tool.parameters).isEmpty = true
  · have behind : List.Forall₂ Spaced [literalItem "</atem:invoke>".toList, nameItem "layout".toList]
        [' ' :: ([' '] ++ quotedLiteral "</atem:invoke>".toList), " layout".toList] :=
      .cons (.of (by simp) (written_literal _)) (.cons written_layout .nil)
    have written := written_inSequence (List.rel_append front behind)
    rw [invokeLine]
    simp only [if_pos closed, List.append_nil]
    rw [List.flatten_append] at written
    simp only [List.flatten_cons, List.append_assoc] at written ⊢
    exact written
  · have behind : List.Forall₂ Spaced [.repeated (nameAtom (parameterRule index)) 0 none,
        literalItem "</atem:invoke>".toList, nameItem "layout".toList] _ :=
      .cons (written_name (ruleName_parameterRule index)).star.spaced
        (.cons (written_literal _).spaced (.cons written_layout .nil))
    have written := written_inSequence (List.rel_append front behind)
    rw [invokeLine]
    simp only [if_neg closed]
    rw [List.flatten_append] at written
    simp only [List.flatten_cons, List.append_assoc, List.cons_append] at written ⊢
    exact written

theorem toolLines_fit (index : ℕ) (tool : ToolDefinition) : ∀ line ∈ toolLines index tool, line.Fits := by
  rw [toolLines]
  split
  · exact List.forall_mem_singleton.mpr (invokeLine_fits index tool)
  · next some_ => exact List.forall_mem_cons.mpr ⟨parameterLine_fits index (by simpa using some_),
      List.forall_mem_singleton.mpr (invokeLine_fits index tool)⟩

/-- The line that says what an output with a required call is. -/
def rootLine (first : ToolDefinition) (others : List ToolDefinition) (parallel : Bool) : Line where
  name := "root".toList
  alternatives := .one (inSequence [.repeated (nameAtom "reasoning-phase".toList) 0 (some 1),
    nameItem "assistant-prefix".toList,
    literalItem " to=".toList,
    .once (choice (literalItem first.name) (others.map (fun tool => literalItem tool.name) ++ [literalItem "tool".toList])),
    literalItem "<|message|><atem:function_calls>".toList, nameItem "layout".toList,
    if parallel then .repeated (choice (nameItem (invokeRule 0)) ((others.zipIdx 1).map fun both =>
      nameItem (invokeRule both.2))) 1 none
    else .once (choice (nameItem (invokeRule 0)) ((others.zipIdx 1).map fun both => nameItem (invokeRule both.2))),
    literalItem "</atem:function_calls><|eom|>".toList])
  body := " reasoning-phase? assistant-prefix \" to=\" (".toList ++
    bars (quotedLiteral first.name) (others.map (fun tool => quotedLiteral tool.name) ++ [quotedLiteral "tool".toList]) ++
    ") \"<|message|><atem:function_calls>\" layout ".toList ++
    ('(' :: (bars (invokeRule 0) ((others.zipIdx 1).map fun both => invokeRule both.2) ++ [')']) ++ if parallel then
      ['+'] else []) ++
    " \"</atem:function_calls><|eom|>\"".toList

def reasoningLine : Line where
  name := "reasoning-phase".toList
  alternatives := .one (inSequence [nameItem "assistant-prefix".toList, literalItem " to=self<|message|>".toList,
    .repeated (nameAtom "any".toList) 0 none, literalItem "<|eom|>".toList])
  body := " assistant-prefix \" to=self<|message|>\" any* \"<|eom|>\"".toList

def assistantLine : Line where
  name := "assistant-prefix".toList
  alternatives := .one (inSequence [.repeated (.literal "<|start|>assistant".toList) 0 (some 1)])
  body := " \"<|start|>assistant\"?".toList

def anyLine : Line where
  name := "any".toList
  alternatives := .one (inSequence [.once anyCharacter])
  body := " [\\U00000000-\\uD7FF\\uE000-\\U0010FFFF]".toList

def characterLine : Line where
  name := "parameter-char".toList
  alternatives := .one (inSequence [.once noTag])
  body := " [^<]".toList

def layoutLine : Line where
  name := "layout".toList
  alternatives := .one (inSequence [.repeated whiteSpace 0 none])
  body := " [ \\t\\n\\r]*".toList

/-- The lines of the grammar. -/
def requiredLines (first : ToolDefinition) (others : List ToolDefinition) (parallel : Bool) : List Line :=
  [rootLine first others parallel, reasoningLine, assistantLine, anyLine, characterLine, layoutLine] ++
    (first :: others).zipIdx.flatMap fun both => toolLines both.2 both.1

theorem rootLine_fits (first : ToolDefinition) (others : List ToolDefinition) (parallel : Bool) :
    (rootLine first others parallel).Fits := by
  refine ⟨show "root".toList ≠ [] by decide, List.all_eq_true.mp (show "root".toList.all inName = true by decide), .one ?_⟩
  have recipients : Written (choice (literalItem first.name) (others.map (fun tool => literalItem tool.name) ++
    [literalItem "tool".toList]))
      ('(' :: (bars (quotedLiteral first.name) (others.map (fun tool => quotedLiteral tool.name) ++
        [quotedLiteral "tool".toList]) ++ [')'])) := by
    refine written_choice (written_literal first.name) (List.rel_append ?_ (.cons (written_literal "tool".toList) .nil))
    exact List.forall₂_map_left_iff.mpr (List.forall₂_map_right_iff.mpr (List.forall₂_same.mpr fun tool _ =>
      written_literal tool.name))
  have invokes : Written (choice (nameItem (invokeRule 0)) ((others.zipIdx 1).map fun both => nameItem (invokeRule both.2)))
      ('(' :: (bars (invokeRule 0) ((others.zipIdx 1).map fun both => invokeRule both.2) ++ [')'])) := by
    refine written_choice (.once (written_name (ruleName_invokeRule 0))) ?_
    exact List.forall₂_map_left_iff.mpr (List.forall₂_map_right_iff.mpr (List.forall₂_same.mpr fun both _ =>
      .once (written_name (ruleName_invokeRule both.2))))
  have calls : Spaced (if parallel then
    .repeated (choice (nameItem (invokeRule 0)) ((others.zipIdx 1).map fun both => nameItem (invokeRule both.2))) 1 none
      else .once (choice (nameItem (invokeRule 0)) ((others.zipIdx 1).map fun both => nameItem (invokeRule both.2))))
      (' ' :: ('(' :: (bars (invokeRule 0) ((others.zipIdx 1).map fun both => invokeRule both.2) ++ [')']) ++
        if parallel then ['+'] else [])) := by
    cases parallel with
    | false =>
      rw [if_neg Bool.false_ne_true, if_neg Bool.false_ne_true, List.append_nil]
      exact (Written.once invokes).spaced
    | true => exact invokes.plus.spaced
  have written := written_inSequence (.cons (written_name (by decide : RuleName "reasoning-phase".toList)).optional.spaced
    (.cons (Written.once (written_name (by decide : RuleName "assistant-prefix".toList))).spaced
      (.cons (written_literal " to=".toList).spaced
      (.cons (Written.once recipients).spaced
        (.cons (written_literal "<|message|><atem:function_calls>".toList).spaced (.cons written_layout (.cons calls
        (.cons (written_literal "</atem:function_calls><|eom|>".toList).spaced .nil))))))))
  rw [rootLine]
  simp only [List.flatten_cons, List.append_assoc, List.cons_append] at written ⊢
  exact written

theorem reasoningLine_fits : reasoningLine.Fits := by
  refine ⟨by decide, List.all_eq_true.mp (by decide), .one ?_⟩
  exact written_inSequence (.cons (Written.once (written_name (by decide : RuleName "assistant-prefix".toList))).spaced
    (.cons (written_literal " to=self<|message|>".toList).spaced
      (.cons (written_name (by decide : RuleName "any".toList)).star.spaced
        (.cons (written_literal "<|eom|>".toList).spaced .nil))))

theorem assistantLine_fits : assistantLine.Fits :=
  ⟨by decide, List.all_eq_true.mp (by decide), .one (written_inSequence
    (.cons (Written.literal "<|start|>assistant".toList).optional.spaced .nil))⟩

theorem anyLine_fits : anyLine.Fits := ⟨by decide, List.all_eq_true.mp (by decide),
    .one (written_inSequence (.cons (Written.once written_anyCharacter).spaced .nil))⟩

theorem characterLine_fits : characterLine.Fits := ⟨by decide, List.all_eq_true.mp (by decide),
    .one (written_inSequence (.cons (Written.once written_noTag).spaced .nil))⟩

theorem layoutLine_fits : layoutLine.Fits :=
  ⟨by decide, List.all_eq_true.mp (by decide), .one (written_inSequence
    (.cons written_whiteSpace.star.spaced .nil))⟩

variable {first : ToolDefinition} {others : List ToolDefinition} {parallel : Bool}

theorem requiredLines_fit : ∀ line ∈ requiredLines first others parallel, line.Fits := by
  rw [requiredLines]
  intro line mem
  rcases List.mem_append.mp mem with mem | mem
  · simp only [List.mem_cons, List.not_mem_nil, or_false] at mem
    rcases mem with rfl | rfl | rfl | rfl | rfl | rfl
    · exact rootLine_fits first others parallel
    · exact reasoningLine_fits
    · exact assistantLine_fits
    · exact anyLine_fits
    · exact characterLine_fits
    · exact layoutLine_fits
  · obtain ⟨both, -, mem⟩ := List.mem_flatMap.mp mem
    exact toolLines_fit both.2 both.1 line mem

/-- The text of a line that is written out. -/
theorem text_literals (line : Line) {name body text : String} (named : line.name = name.toList)
    (bodied : line.body = body.toList)
    (whole : name ++ " ::=" ++ body ++ "\n" = text) : line.text = text.toList := by
  rw [Line.text, named, bodied, ← whole, String.toList_append, String.toList_append, String.toList_append]
  rfl

/-- The grammar is the text of its lines. -/
theorem requiredToolGbnf_eq {request : ChatTools} (eligible : request.eligible = first :: others) :
    requiredToolGbnf request = .ok ((requiredLines first others request.parallelToolCalls).flatMap Line.text) := by
  have tools : ((first :: others).zipIdx.flatMap fun both => toolLines both.2 both.1).flatMap Line.text =
      ((first :: others).zipIdx.flatMap fun both => toolRules both.2 both.1).flatMap fun rule => rule.1 ++
        " ::= ".toList ++ rule.2 ++ ['\n'] := by
    rw [List.flatMap_assoc, List.flatMap_assoc]
    simp only [toolLines_text]
  have root : (rootLine first others request.parallelToolCalls).text =
      "root ::= reasoning-phase? assistant-prefix \" to=\" (".toList ++
        join ((first :: others).map (fun tool => quotedLiteral tool.name) ++ [quotedLiteral "tool".toList]) ++
        ") \"<|message|><atem:function_calls>\" layout ".toList ++
        (if request.parallelToolCalls then
          ('(' :: (join ((first :: others).zipIdx.map fun both => invokeRule both.2) ++ [')'])) ++ ['+']
          else '(' :: (join ((first :: others).zipIdx.map fun both => invokeRule both.2) ++ [')'])) ++
        " \"</atem:function_calls><|eom|>\"\n".toList := by
    rw [Line.text, rootLine]
    cases request.parallelToolCalls with
    | false =>
      simp only [Bool.false_eq_true, if_false, List.append_assoc]
      rfl
    | true =>
      simp only [if_true, List.append_assoc]
      rfl
  have reasoning : reasoningLine.text =
      "reasoning-phase ::= assistant-prefix \" to=self<|message|>\" any* \"<|eom|>\"\n".toList :=
    text_literals _ rfl rfl (by decide)
  have assistant : assistantLine.text = "assistant-prefix ::= \"<|start|>assistant\"?\n".toList :=
    text_literals _ rfl rfl (by decide)
  have any : anyLine.text = "any ::= [\\U00000000-\\uD7FF\\uE000-\\U0010FFFF]\n".toList :=
    text_literals _ rfl rfl (by decide)
  have character : characterLine.text = "parameter-char ::= [^<]\n".toList := text_literals _ rfl rfl (by decide)
  have layout : layoutLine.text = "layout ::= [ \\t\\n\\r]*\n".toList := text_literals _ rfl rfl (by decide)
  rw [requiredToolGbnf, eligible, requiredLines, List.flatMap_append, tools]
  simp only [List.flatMap_cons, List.flatMap_nil, root, reasoning, assistant, any, character, layout,
    List.isEmpty_cons, Bool.false_eq_true, if_false,
    List.append_assoc, List.nil_append]

end Muser.Atem
