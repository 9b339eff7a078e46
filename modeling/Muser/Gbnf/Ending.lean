import Muser.Gbnf.Parsing

/-! # The parser ends

Every loop of the parser reads a byte before it goes round, and every recursion does so before it comes
back to where it began; the steps it is given are enough for any text.
-/

namespace Muser.Gbnf.Parse

open Fueled

variable {parser : Parser} {steps : ℕ}

theorem expect_halts (expected : Bytes) : (expect expected).Halts parser := by
  rw [expect]
  exact halts_bind halts_read fun _ _ _ => halts_ite (fun _ => halts_fail) fun _ => halts_modify

theorem name_halts : name.Halts parser := by
  rw [name]
  exact halts_bind halts_read fun _ _ _ => halts_bind halts_step fun _ _ _ =>
    halts_ite (fun _ => halts_fail) fun _ => halts_pure

theorem number_halts : number.Halts parser := by
  rw [number]
  exact halts_bind halts_step fun _ _ _ => halts_ite (fun _ => halts_fail) fun _ =>
    halts_ite (fun _ => halts_fail) fun _ => halts_pure

theorem hex_halts (digits : ℕ) : (hex digits).Halts parser := by
  rw [hex]
  refine halts_bind halts_read fun text _ _ => halts_ite (fun _ => halts_fail) fun _ => ?_
  split
  · exact halts_fail
  · exact halts_ite (fun _ => halts_fail) fun _ => halts_bind halts_modify fun _ _ _ => halts_pure

theorem codepoint_halts : codepoint.Halts parser := by
  rw [codepoint]
  refine halts_bind halts_read fun _ _ _ => halts_ite (fun _ => ?_) fun _ => ?_
  · refine halts_bind halts_modify fun _ _ _ => halts_bind halts_read fun next _ _ => ?_
    cases next with
    | none => exact halts_fail
    | some escaped =>
      refine halts_bind halts_modify fun _ _ _ => ?_
      split
      · exact halts_pure
      · exact hex_halts _
      · exact halts_fail
  · refine halts_bind halts_read fun decoded _ _ => ?_
    split
    · exact halts_fail
    · exact halts_fail
    · exact halts_bind halts_modify fun _ _ _ => halts_pure

theorem tokenTerminal_halts : tokenTerminal.Halts parser := by
  have id : ∀ {parser}, tokenId.Halts parser := by
    intro parser
    rw [tokenId]
    exact halts_bind halts_modify fun _ _ _ => halts_bind halts_step fun _ _ _ => halts_ite (fun _ => halts_fail) fun _ =>
      halts_ite (fun _ => halts_fail) fun _ => halts_bind (expect_halts _) fun _ _ _ => halts_pure
  have piece : ∀ {parser}, tokenPiece.Halts parser := by
    intro parser
    rw [tokenPiece]
    exact halts_bind halts_step fun _ _ _ => halts_bind halts_read fun _ _ _ => halts_ite (fun _ => halts_fail) fun _ =>
      halts_ite (fun _ => halts_fail) fun _ => halts_bind (expect_halts _) fun _ _ _ => halts_pure
  have body : ∀ {inverted : Bool} {parser}, (do
      expect [ascii '<']
      let value ← if (← peek) = some (ascii '[') then tokenId else tokenPiece
      pure ⟨inverted, value⟩ : Parse TokenTerminal).Halts parser := by
    intro inverted parser
    refine halts_bind (expect_halts _) fun _ _ _ => halts_bind halts_read fun _ _ _ => ?_
    exact halts_ite (fun _ => halts_bind id fun _ _ _ => halts_pure) fun _ => halts_bind piece fun _ _ _ => halts_pure
  rw [tokenTerminal]
  refine halts_bind halts_read fun _ _ _ => halts_ite (fun _ => ?_) fun _ => ?_
  · exact halts_bind halts_modify fun _ _ _ => body
  · exact body

theorem repetition_halts : repetition.Halts parser := by
  have range : ∀ {parser}, repetitionRange.Halts parser := by
    intro parser
    rw [repetitionRange]
    refine halts_bind halts_modify fun _ _ _ => halts_bind number_halts fun _ _ _ => halts_bind halts_read fun _ _ _ => ?_
    have close : ∀ {bounds : ℕ × Option ℕ} {parser},
        (expect [ascii '}'] >>= fun _ => pure bounds : Parse (ℕ × Option ℕ)).Halts parser :=
      halts_bind (expect_halts _) fun _ _ _ => halts_pure
    refine halts_ite (fun _ => halts_bind halts_pure fun _ _ _ => close) fun _ => halts_ite (fun _ => ?_) fun _ => ?_
    · refine halts_bind halts_modify fun _ _ _ => halts_bind halts_read fun _ _ _ => halts_ite (fun _ => ?_) fun _ => ?_
      · exact halts_bind number_halts fun _ _ _ => halts_bind halts_pure fun _ _ _ => close
      · exact halts_bind halts_pure fun _ _ _ => close
    · exact halts_bind halts_fail fun _ _ _ => close
  have bounds : ∀ {parser}, operator.Halts parser := by
    intro parser
    rw [operator]
    exact halts_bind halts_read fun _ _ _ => halts_ite (fun _ => halts_pure) fun _ =>
      halts_ite (fun _ => halts_pure) fun _ =>
      halts_ite (fun _ => halts_pure) fun _ => halts_ite (fun _ => halts_bind range fun _ _ _ => halts_pure) fun _ =>
        halts_pure
  rw [repetition]
  exact halts_bind bounds fun _ _ _ => halts_bind halts_read fun _ _ _ =>
    halts_ite (fun _ => halts_bind halts_modify fun _ _ _ => halts_pure) fun _ => halts_pure

theorem repeated_halts (body : List Symbol) : (repeated body).Halts parser := by
  rw [repeated]
  refine halts_bind halts_modify fun _ _ _ => halts_bind repetition_halts fun found _ _ => ?_
  split
  · refine halts_bind ?_ fun _ _ _ => halts_pure
    rw [repeatRule]
    refine halts_bind halts_read fun made _ _ => ?_
    split
    · exact halts_fail
    · exact halts_bind halts_modify fun _ _ _ => halts_pure
  · exact halts_pure

theorem literalCharacters_halts (enough : parser.tail.length < steps) : (literalCharacters steps).Halts parser := by
  induction steps generalizing parser with
  | zero => exact absurd enough (Nat.not_lt_zero _)
  | succ steps ih =>
    rw [literalCharacters]
    refine halts_bind halts_read fun _ _ looked =>
      halts_ite (fun _ => halts_bind halts_modify fun _ _ _ => halts_pure) fun _ =>
      halts_ite (fun _ => halts_fail) fun _ => halts_bind codepoint_halts fun _ _ first =>
        halts_bind (ih ?_) fun _ _ _ => halts_pure
    obtain ⟨-, rfl⟩ := peek_answers.mp looked
    obtain ⟨character, rest, spelled, -, leaves⟩ := codepoint_answers first
    rw [leaves.tail]
    have shorter := spelled.suffix.2
    omega

theorem classRanges_halts (enough : parser.tail.length < steps) : (classRanges steps).Halts parser := by
  induction steps generalizing parser with
  | zero => exact absurd enough (Nat.not_lt_zero _)
  | succ steps ih =>
    rw [classRanges]
    refine halts_bind halts_read fun _ _ looked =>
      halts_ite (fun _ => halts_bind halts_modify fun _ _ _ => halts_pure) fun _ =>
      halts_ite (fun _ => halts_fail) fun _ => halts_bind codepoint_halts fun _ second first => ?_
    obtain ⟨-, rfl⟩ := peek_answers.mp looked
    obtain ⟨character, rest, spelled, rfl, leaves⟩ := codepoint_answers first
    have shorter := spelled.suffix.2
    rw [← leaves.tail] at shorter
    -- What is behind the range, whose end may be read too.
    have others : ∀ {upper : ℕ} {last : Parser}, last.tail.length ≤ second.tail.length →
        (if upper < character.toNat then fail fun _ => "descending grammar character range"
          else classRanges steps >>= fun others =>
            pure ((character.toNat, upper) :: others) : Parse (List (ℕ × ℕ))).Halts last :=
      fun within => halts_ite (fun _ => halts_fail) fun _ => halts_bind (ih (by lia)) fun _ _ _ => halts_pure
    refine halts_bind halts_read fun _ _ looked => halts_bind halts_read fun _ _ looked' => ?_
    obtain ⟨-, rfl⟩ := answers_read.mp looked
    obtain ⟨rfl, rfl⟩ := peek_answers.mp looked'
    refine halts_ite (fun dash => ?_) fun _ => halts_bind halts_pure fun _ _ same => ?_
    · obtain ⟨behind, is⟩ := List.head?_eq_some_iff.mp dash.1
      refine halts_bind halts_modify fun _ _ go => halts_bind codepoint_halts fun _ _ last => others ?_
      obtain ⟨_, rest', spelled', -, leaves'⟩ := codepoint_answers last
      have shorter' := spelled'.suffix.2
      rw [(advance_answers go is).tail] at shorter'
      rw [leaves'.tail, is, List.length_cons]
      lia
    · obtain ⟨rfl, rfl⟩ := answers_pure.mp same
      exact others le_rfl

theorem characterClass_halts (enough : parser.tail.length < steps) {input : Bytes} (is : parser.tail = ascii '[' :: input) :
    (characterClass steps).Halts parser := by
  have length : input.length < parser.tail.length := by rw [is, List.length_cons]; exact Nat.lt_succ_self _
  rw [characterClass]
  refine halts_bind halts_modify fun _ _ go => halts_bind halts_read fun _ _ looked => ?_
  obtain ⟨rfl, rfl⟩ := peek_answers.mp looked
  have leaves := advance_answers go is
  refine halts_ite (fun caret => halts_bind halts_modify fun _ _ go' => ?_) fun _ => ?_
  · obtain ⟨behind, is'⟩ := List.head?_eq_some_iff.mp caret
    have leaves' := advance_answers go' is'
    refine halts_bind (classRanges_halts ?_) fun _ _ _ => halts_pure
    rw [leaves'.tail]
    have shorter := congrArg List.length (leaves.tail.symm.trans is')
    rw [List.length_cons] at shorter
    lia
  · refine halts_bind (classRanges_halts ?_) fun _ _ _ => halts_pure
    rw [leaves.tail]
    lia

theorem simpleAtom_halts (enough : parser.tail.length < steps) : (simpleAtom steps).Halts parser := by
  rw [simpleAtom]
  refine halts_bind halts_read fun next _ looked => ?_
  obtain ⟨rfl, rfl⟩ := peek_answers.mp looked
  cases whole : parser.tail with
  | nil => exact halts_fail
  | cons byte input =>
    have length : input.length < parser.tail.length := by rw [whole, List.length_cons]; exact Nat.lt_succ_self _
    dsimp only [List.head?_cons]
    refine halts_ite (fun is => ?_) fun _ => halts_ite (fun is => ?_) fun _ => halts_ite (fun _ => ?_) fun _ =>
      halts_ite (fun _ => ?_) fun _ => ?_
    · rw [literal]
      refine halts_bind halts_modify fun _ _ go => literalCharacters_halts ?_
      rw [(advance_answers go whole).tail]
      omega
    · exact halts_bind (characterClass_halts enough (is ▸ whole)) fun _ _ _ => halts_pure
    · exact halts_bind halts_modify fun _ _ _ => halts_pure
    · exact halts_bind tokenTerminal_halts fun _ _ _ => halts_pure
    · exact halts_bind name_halts fun _ _ _ => halts_bind halts_step fun _ _ _ => halts_pure

theorem skipLayout_halts (enough : parser.tail.length < steps) : (skipLayout true steps).Halts parser := by
  induction steps generalizing parser with
  | zero => exact absurd enough (Nat.not_lt_zero _)
  | succ steps ih =>
    rw [skipLayout]
    refine halts_bind halts_modify fun _ second skips => halts_bind halts_read fun _ _ looked => ?_
    obtain ⟨rfl, rfl⟩ := peek_answers.mp looked
    refine halts_ite (fun comment => halts_bind halts_modify fun _ _ skips' => ih ?_) fun _ => halts_read
    have leaves := skipWhile_answers skips
    obtain ⟨behind, is⟩ := List.head?_eq_some_iff.mp comment
    rw [(skipWhile_answers skips').tail, is, List.dropWhile_cons, if_pos (by decide)]
    have first : second.tail.length ≤ parser.tail.length := by
      rw [leaves.tail]
      exact (List.dropWhile_suffix _).length_le
    have comment_ : (behind.dropWhile (· != lineFeed)).length ≤ behind.length := (List.dropWhile_suffix _).length_le
    rw [is, List.length_cons] at first
    omega

theorem consumeRuleEnd_halts : consumeRuleEnd.Halts parser := by
  have last : ∀ {parser}, (do
      let next ← peek
      if next.any fun byte => !isLineEnd byte then
        fail fun parser => s!"unexpected grammar input at byte {parser.position}" : Parse Unit).Halts parser :=
    halts_bind halts_read fun _ _ _ => halts_ite (fun _ => halts_fail) fun _ => halts_pure
  rw [consumeRuleEnd]
  exact halts_bind halts_modify fun _ _ _ => halts_bind halts_read fun _ _ _ =>
    halts_ite (fun _ => halts_bind halts_modify fun _ _ _ => last) fun _ => last

/-- Between two calls of the same function a byte is read, and three calls lie between them at most. -/
theorem phrase_halts (depth : ℕ) :
    (∀ closing parser, closing = none ∨ closing = some (ascii ')') → parser.position ≤ parser.source.length →
      parser.tail.length < steps → 3 * parser.tail.length + 3 ≤ depth → (expression steps depth closing).Halts parser) ∧
    (∀ closing parser, closing = none ∨ closing = some (ascii ')') → parser.position ≤ parser.source.length →
      parser.tail.length < steps → 3 * parser.tail.length + 2 ≤ depth → (sequence steps depth closing).Halts parser) ∧
    (∀ parser, parser.position ≤ parser.source.length → parser.tail.length < steps → 3 * parser.tail.length + 1 ≤ depth →
      (atom steps depth).Halts parser) := by
  induction depth with
  | zero => exact ⟨fun _ _ _ _ _ few => by lia, fun _ _ _ _ _ few => by lia, fun _ _ _ few => by lia⟩
  | succ depth ih =>
    obtain ⟨alternatives_, sequences, atoms⟩ := ih
    refine ⟨?_, ?_, ?_⟩
    · intro closing parser known within enough deep
      rw [expression]
      refine halts_bind (sequences closing parser known within enough (by lia)) fun first second reads =>
        halts_bind halts_modify fun _ third skips => halts_bind halts_read fun _ _ looked => ?_
      obtain ⟨rfl, rfl⟩ := peek_answers.mp looked
      refine halts_ite (fun bar => halts_bind halts_modify fun _ fourth go => ?_) fun _ => halts_pure
      obtain ⟨phrase, parsed, -⟩ := (phrase_answers steps depth).2.1 closing parser second first known within reads
      have leaves := skipHorizontal_answers skips
      obtain ⟨input, is⟩ := List.head?_eq_some_iff.mp bar
      have goes := leaves.trans (advance_answers go is)
      have shorter : fourth.tail.length < parser.tail.length := by
        have before := parsed.spelled.suffix.length_le
        have blanks := (skipBlanks_suffix second.tail).length_le
        rw [← leaves.tail, is, List.length_cons] at blanks
        rw [goes.tail]
        lia
      exact halts_bind (alternatives_ closing fourth known (goes.within (parsed.within within)) (by lia) (by lia))
        fun _ _ _ => halts_pure
    · intro closing parser known within enough deep
      rw [sequence]
      refine halts_bind halts_modify fun _ second skips => halts_bind halts_read fun _ _ looked => ?_
      obtain ⟨rfl, rfl⟩ := peek_answers.mp looked
      have leaves := skipHorizontal_answers skips
      have blanks := (skipBlanks_suffix parser.tail).length_le
      rw [← leaves.tail] at blanks
      refine halts_ite (fun _ => halts_pure) fun _ =>
        halts_bind (atoms second (leaves.within within) (by lia) (by lia)) fun body third reads => ?_
      obtain ⟨item, parsed, -⟩ := (phrase_answers steps depth).2.2 second third body (leaves.within within) reads
      have shorter := parsed.spelled.item.1
      exact halts_bind (sequences closing third known (parsed.within (leaves.within within)) (by lia) (by lia))
        fun _ _ _ => halts_pure
    · intro parser within enough deep
      rw [atom]
      refine halts_bind halts_read fun _ _ looked => ?_
      obtain ⟨rfl, rfl⟩ := peek_answers.mp looked
      refine halts_ite (fun opens => halts_bind halts_modify fun _ second go => ?_) fun _ =>
        halts_bind (simpleAtom_halts enough) fun _ _ _ => repeated_halts _
      obtain ⟨input, is⟩ := List.head?_eq_some_iff.mp opens
      have leaves := advance_answers go is
      have shorter : second.tail.length < parser.tail.length := by
        rw [leaves.tail, is, List.length_cons]
        exact Nat.lt_succ_self _
      exact halts_bind (alternatives_ _ second (.inr rfl) (leaves.within within) (by lia) (by lia)) fun _ _ _ =>
        halts_bind (expect_halts _) fun _ _ _ => halts_bind halts_step fun _ _ _ => halts_bind halts_pure fun _ _ _ =>
          repeated_halts _

theorem sourceRules_halts {depth count : ℕ} (within : parser.position ≤ parser.source.length)
    (enough : parser.tail.length < steps)
    (deep : 3 * parser.tail.length + 3 ≤ depth) (many : parser.tail.length < count) :
    (sourceRules steps depth count).Halts parser := by
  induction count generalizing parser with
  | zero => exact absurd many (Nat.not_lt_zero _)
  | succ count ih =>
    rw [sourceRules]
    refine halts_bind (skipLayout_halts enough) fun _ second layout => halts_ite (fun _ => ?_) fun _ => halts_pure
    obtain ⟨rest, spelled, leaves, -⟩ := skipLayout_answers layout
    have shorter := spelled.suffix.length_le
    refine halts_bind name_halts fun name third named => halts_bind halts_step fun lhs fourth numbers =>
      halts_bind halts_modify fun _ fifth skips => halts_bind (expect_halts _) fun _ sixth defines => ?_
    obtain ⟨letters, middle, is, some_, -, -, -, leaves'⟩ := name_answers named
    obtain ⟨-, -, source, position, tail⟩ := onRules_answers numbers
    have leaves'' := skipHorizontal_answers skips
    obtain ⟨body, defined, goes⟩ := expect_answers defines
    have inside : sixth.position ≤ sixth.source.length := by
      refine goes.within (leaves''.within ?_)
      rw [source, position]
      exact (leaves.trans leaves').within within
    have read : sixth.tail.length < parser.tail.length := by
      have blanks := (skipBlanks_suffix fourth.tail).length_le
      have lengths := congrArg List.length is
      have lengths' := congrArg List.length defined
      rw [leaves.tail, List.length_append] at lengths
      rw [leaves''.tail, List.length_append] at lengths'
      rw [tail, leaves'.tail] at blanks lengths'
      have positive := List.length_pos_of_ne_nil some_
      rw [goes.tail]
      lia
    refine halts_bind ((phrase_halts depth).1 none sixth (.inl rfl) inside (by lia) (by lia)) fun alternatives
      seventh reads =>
      halts_bind halts_step fun _ eighth pushes => halts_bind consumeRuleEnd_halts fun _ ninth ends => ?_
    obtain ⟨phrase, parsed, -⟩ := (phrase_answers steps depth).1 none sixth seventh alternatives (.inl rfl) inside reads
    obtain ⟨-, -, source', position', tail'⟩ := onRules_answers pushes
    obtain ⟨ended, -⟩ := consumeRuleEnd_answers ends
    have within' : ninth.position ≤ ninth.source.length := by
      refine ended.within ?_
      rw [source', position']
      exact parsed.within inside
    have last : ninth.tail.length ≤ sixth.tail.length := by
      rw [ended.tail, tail']
      exact (((skipComment_suffix _).trans (skipBlanks_suffix _)).trans parsed.spelled.suffix).length_le
    exact ih within' (by lia) (by lia) (by lia)

end Muser.Gbnf.Parse
