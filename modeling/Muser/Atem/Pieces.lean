import Muser.Atem.Offsets

/-! # Output in pieces

Whatever pieces an output arrives in, the parser emits what it emits of the whole text.
-/

namespace Muser.Atem

open Text

variable {Value : Type} (outside : Outside Value)

namespace AtemStreamParser

/-- Push one piece after another. -/
def feed (parser : AtemStreamParser) : List Text → Except Stop (List AtemStreamEvent × AtemStreamParser)
  | [] => .ok ([], parser)
  | piece :: pieces => do
    let (events, parser) ← push outside parser piece
    let (later, parser) ← feed parser pieces
    .ok (events ++ later, parser)

/-- The events of an output that arrives in pieces. -/
def stream (pieces : List Text) : Except Stop (List AtemStreamEvent) := do
  let (events, parser) ← feed outside default pieces
  let (later, _) ← finish outside parser
  .ok (events ++ later)

end AtemStreamParser

/-- An output that starts with a recipient or with the assistant's marker. -/
def Marked (text : Text) : Prop := "to=".toList <+: trimStart text ∨ startMarker <+: trimStart text

/-- An output with phases: it has a message too. -/
def Structured (text : Text) : Prop := Marked text ∧ messageMarker <:+: trimStart text

/-- An output that may still start with a marker. -/
def Unclear (text : Text) : Prop := trimStart text <+: "to=".toList ∨ trimStart text <+: startMarker

instance (text : Text) : Decidable (Marked text) := instDecidableOr

instance (text : Text) : Decidable (Unclear text) := instDecidableOr

instance (text : Text) : Decidable (Structured text) := instDecidableAnd

theorem discriminate_finishing (text : Text) : discriminate true text = some (decide (Structured text)) := by
  rw [discriminate]
  simp only [Bool.not_true, Bool.and_false, Bool.false_eq_true, if_false, Option.some.injEq]
  rw [Bool.eq_iff_iff, decide_eq_true_iff, Bool.and_eq_true, Bool.or_eq_true, startsWith_iff, startsWith_iff,
    includes_iff (by decide)]
  exact Iff.rfl

theorem discriminate_pushing (text : Text) :
    discriminate false text = if Unclear text ∨ Marked text ∧ ¬Structured text then
      none else some (decide (Structured text)) := by
  rw [← discriminate_finishing text, discriminate, discriminate]
  simp only [Bool.not_true, Bool.not_false, Bool.and_false, Bool.and_true, Bool.false_eq_true, if_false,
    Bool.or_eq_true, Bool.and_eq_true,
    Bool.not_eq_true', ← Bool.not_eq_true, startsWith_iff, includes_iff (show messageMarker ≠ [] by decide)]
  show (if Unclear text then none else if Marked text ∧ ¬messageMarker <:+: trimStart text then none else some _) = _
  by_cases unclear : Unclear text
  · rw [if_pos unclear, if_pos (.inl unclear)]
  · rw [if_neg unclear]
    by_cases marked : Marked text ∧ ¬messageMarker <:+: trimStart text
    · rw [if_pos marked, if_pos (.inr ⟨marked.1, fun both => marked.2 both.2⟩)]
    · have settled : ¬(Unclear text ∨ Marked text ∧ ¬Structured text) := by
        rintro (open_ | ⟨starts, plain⟩)
        · exact unclear open_
        · exact marked ⟨starts, fun message => plain ⟨starts, message⟩⟩
      rw [if_neg marked, if_neg settled]

variable {text : Text} {parser : AtemStreamParser} {place : Place} {emitted : ℕ} {first : Heard}

/-- What is clear before the end of a text is so at the end. -/
theorem discriminate_more {decided : Bool} (is : discriminate false text = some decided) (finishing : Bool) (added : Text) :
    discriminate finishing (text ++ added) = some decided := by
  rw [discriminate_pushing] at is
  split at is
  · cases is
  · next settled =>
    cases is
    rw [not_or, not_and, not_not] at settled
    obtain ⟨clear, whole⟩ := settled
    have nonempty : trimStart text ≠ [] := fun none => clear (.inl (none ▸ List.nil_prefix))
    have marked : Marked (text ++ added) ↔ Marked text := by
      rw [Unclear, not_or] at clear
      rw [Marked, Marked, trimStart_append nonempty, prefix_append_iff_of_not clear.1, prefix_append_iff_of_not clear.2]
    have structured : Structured (text ++ added) ↔ Structured text := by
      constructor
      · exact fun both => whole (marked.mp both.1)
      · rintro ⟨starts, message⟩
        refine ⟨marked.mpr starts, ?_⟩
        rw [trimStart_append nonempty]
        exact message.trans (List.prefix_append _ _).isInfix
    have clear' : ¬Unclear (text ++ added) := by
      rw [Unclear, trimStart_append nonempty]
      exact fun unclear => clear (unclear.imp (List.prefix_append _ _).trans (List.prefix_append _ _).trans)
    have same : decide (Structured (text ++ added)) = decide (Structured text) := decide_eq_decide.mpr structured
    cases finishing with
    | true => rw [discriminate_finishing, same]
    | false =>
      rw [discriminate_pushing, same, if_neg]
      rw [marked, structured]
      exact fun unclear => unclear.elim clear' fun both => both.2 (whole both.1)

theorem structured_iff {decided : Bool} (is : discriminate false text = some decided) :
    Structured text ↔ decided = true := by
  have same := discriminate_more is true []
  rw [List.append_nil, discriminate_finishing, Option.some.injEq] at same
  rw [← same, decide_eq_true_iff]

/-- A text that is not clear before its end is plain. -/
theorem not_structured (is : discriminate false text = none) : ¬Structured text := by
  rw [discriminate_pushing] at is
  split at is
  · next open_ =>
    rintro ⟨marked, message⟩
    rcases open_ with unclear | ⟨-, plain⟩
    · rcases unclear with short | short
      · exact absurd (message.trans short.isInfix) (by decide)
      · exact absurd (message.trans short.isInfix) (by decide)
    · exact plain ⟨marked, message⟩
  · cases is

/-- A parser that a text has been pushed into, and what has been heard. -/
inductive Fed (text : Text) : AtemStreamParser → Heard → Prop
  | unclear (is : discriminate false text = none) : Fed text ⟨text, none, 0, 0, none, 0⟩ (heard [])
  | plain (is : discriminate false text = some false) : Fed text ⟨text, some false, 0, size text, none, 0⟩ ⟨text, [], []⟩
  | structured {parser : AtemStreamParser} {place : Place} {emitted : ℕ} {first : Heard}
      (is : discriminate false text = some true)
      (stands : Stands text parser place emitted) (settled : hears (advance outside false (.between text) 0) =
        .ok (first, place, emitted))
      (goesOn : ∀ finishing added, hears (advance outside finishing (.between (text ++ added)) 0) =
        Hearing.after first (hears (advance outside finishing (place.more added) emitted))) : Fed text parser first

theorem Place.more_nil (place : Place) : place.more [] = place := by
  cases place with
  | between rest | within recipient body said => rw [more, List.append_nil]

theorem Place.more_more (place : Place) (added added' : Text) :
    (place.more added).more added' = place.more (added ++ added') := by
  cases place with
  | between rest | within recipient body said => rw [more, more, more, List.append_assoc]

theorem Stands.push {raw : Text} (is : Stands raw parser place emitted) (piece : Text) :
    Stands (raw ++ piece) { parser with raw := parser.raw ++ piece } (place.more piece) emitted := by
  cases is with
  | between whole => exact .between (by rw [whole, List.append_assoc])
  | @within before recipient body cursor _ said whole fits =>
    have taken : (body ++ piece).take said = body.take said := List.take_append_of_le_length fits
    have same : size raw - size body = size (raw ++ piece) - size (body ++ piece) := by
      rw [size_append, size_append, Nat.add_sub_add_right]
    rw [same, ← taken]
    exact .within (by rw [whole, List.append_assoc]) (by rw [List.length_append]; omega)

theorem Stands.length_lt {raw : Text} (is : Stands raw parser place emitted) :
    place.text.length < raw.length + 1 := by
  cases is with
  | between whole | within whole fits =>
    rw [whole, List.length_append, Place.text]
    omega

/-- A parser of a structured text that goes on. -/
theorem drain_structured (finishing : Bool) (is : Stands text parser place emitted) :
    Follows text (AtemStreamParser.drain outside finishing parser) (advance outside finishing place emitted) := by
  have same : AtemStreamParser.drain outside finishing parser = drainPhases outside finishing (text.length + 1) parser := by
    rw [AtemStreamParser.drain, is.structured_eq.1]
    show drainPhases outside finishing (parser.raw.length + 1) { parser with structured := some true } = _
    rw [is.raw_eq]
    cases is with
    | between _ => rfl
    | within _ _ => rfl
  rw [same]
  exact drainPhases_follows outside is is.length_lt

theorem drain_of_discriminate {finishing : Bool} (decided : Bool) (open_ : parser.structured = none)
    (is : discriminate finishing parser.raw = some decided) :
    AtemStreamParser.drain outside finishing parser =
      AtemStreamParser.drain outside finishing { parser with structured := some decided } := by
  rw [AtemStreamParser.drain, AtemStreamParser.drain, open_, Option.none_or, is]
  cases decided with
  | false => rfl
  | true => rfl

/-- A parser of a plain text that goes on. -/
theorem drain_plain (finishing : Bool) (text piece : Text) : ∃ events,
    AtemStreamParser.drain outside finishing ⟨text ++ piece, some false, 0, size text, none, 0⟩ =
      .ok (events, ⟨text ++ piece, some false, 0, size (text ++ piece), none, 0⟩) ∧ heard events = ⟨piece, [], []⟩ := by
  show ∃ events, AtemStreamParser.drainPlain _ = _ ∧ _
  rw [AtemStreamParser.drainPlain]
  simp only [sliceFrom_append, part_some]
  split
  · exact ⟨[.content piece], rfl,
      by simp [heard, AtemStreamEvent.contents, AtemStreamEvent.reasonings, AtemStreamEvent.toolCalls]⟩
  · next none =>
    rw [size_append] at none ⊢
    have empty : piece = [] := size_eq_zero.mp (by omega)
    exact ⟨[], by rw [empty]; rfl, by rw [empty]; rfl⟩

/-- A text that the parser fails on, whatever comes after it. -/
def Refused (text : Text) (message : String) : Prop :=
  discriminate false text = some true ∧ ∀ finishing added,
    hears (advance outside finishing (.between (text ++ added)) 0) = .error message

/-- What a push does to a parser of a structured text. -/
theorem drain_fed {text piece : Text} {parser : AtemStreamParser} {place : Place} {emitted : ℕ} {first : Heard}
    (is : discriminate false (text ++ piece) = some true) (stands : Stands (text ++ piece) parser (place.more piece) emitted)
    (goesOn : ∀ finishing added, hears (advance outside finishing (.between (text ++ added)) 0) =
      Hearing.after first (hears (advance outside finishing (place.more added) emitted))) :
    (∃ events after, AtemStreamParser.drain outside false parser = .ok (events, after) ∧
      Fed outside (text ++ piece) after (first ++ heard events)) ∨
      ∃ message, AtemStreamParser.drain outside false parser = .error (.error message) ∧
        Refused outside (text ++ piece) message := by
  have follows := drain_structured outside false stands
  cases advanced : advance outside false (place.more piece) emitted with
  | error message =>
    rw [advanced] at follows
    refine .inr ⟨message, follows, is, fun finishing added => ?_⟩
    rw [List.append_assoc, goesOn, ← Place.more_more, advance_more, advanced]
    rfl
  | ok found =>
    obtain ⟨events, place', emitted'⟩ := found
    rw [advanced] at follows
    obtain ⟨after, drained, stands'⟩ := follows
    refine .inl ⟨events, after, drained, .structured is stands' ?_ fun finishing added => ?_⟩
    · have settled := goesOn false piece
      rw [advanced] at settled
      exact settled
    rw [List.append_assoc, goesOn, ← Place.more_more, advance_more, advanced, resumed, Hearing.after_after]

theorem push_fed (fed : Fed outside text parser first) (piece : Text) :
    (∃ events after, parser.push outside piece = .ok (events, after) ∧
      Fed outside (text ++ piece) after (first ++ heard events)) ∨
      ∃ message, parser.push outside piece = .error (.error message) ∧ Refused outside (text ++ piece) message := by
  cases fed with
  | @structured _ place emitted _ is stands settled goesOn =>
    exact drain_fed outside (discriminate_more is false piece) (stands.push piece) goesOn
  | plain is =>
    obtain ⟨events, drained, same⟩ := drain_plain outside false text piece
    refine .inl ⟨events, _, drained, ?_⟩
    rw [same, Heard.append_def]
    exact .plain (discriminate_more is false piece)
  | unclear is =>
    rw [AtemStreamParser.push]
    cases decided : discriminate false (text ++ piece) with
    | none =>
      exact .inl ⟨[], ⟨text ++ piece, none, 0, 0, none, 0⟩, by rw [AtemStreamParser.drain, decided]; rfl, .unclear decided⟩
    | some decision =>
      rw [drain_of_discriminate outside decision rfl decided]
      cases decision with
      | false =>
        obtain ⟨events, drained, same⟩ := drain_plain outside false [] (text ++ piece)
        refine .inl ⟨events, _, drained, ?_⟩
        rw [heard_nil_append, same]
        exact .plain decided
      | true =>
        have stands : Stands ([] ++ (text ++ piece)) ⟨text ++ piece, some true, 0, 0, none,
            0⟩ ((Place.between []).more (text ++ piece)) 0 :=
          @Stands.between _ [] _ _ rfl
        exact @drain_fed _ outside [] _ _ _ _ _ decided stands fun finishing added => (Hearing.after_nil _).symm

theorem fed_default : Fed outside [] .default (heard []) := .unclear (by decide)

/-- What a run of pushes comes to. -/
theorem feed_fed (fed : Fed outside text parser first) (pieces : List Text) :
    (∃ events after, parser.feed outside pieces = .ok (events, after) ∧
      Fed outside (text ++ pieces.flatten) after (first ++ heard events)) ∨
      ∃ message, parser.feed outside pieces = .error (.error message) ∧ ∃ more,
        Refused outside (text ++ more) message ∧ more <+: pieces.flatten := by
  induction pieces generalizing text parser first with
  | nil => exact .inl ⟨[], parser, rfl, by rw [List.flatten_nil, List.append_nil, heard_append_nil]; exact fed⟩
  | cons piece pieces ih =>
    rw [AtemStreamParser.feed, List.flatten_cons]
    rcases push_fed outside fed piece with ⟨events, after, pushed, fed'⟩ | ⟨message, pushed, refused⟩
    · rw [pushed]
      rcases ih fed' with ⟨later, after', rest, fed''⟩ | ⟨message, rest, more, refused, within⟩
      · refine .inl ⟨events ++ later, after', ?_, ?_⟩
        · show Except.bind (after.feed outside pieces) _ = _
          rw [rest]
          rfl
        · rw [heard_append, ← Heard.append_assoc, ← List.append_assoc]
          exact fed''
      · refine .inr ⟨message, ?_, piece ++ more, ?_, (List.prefix_append_right_inj piece).mpr within⟩
        · show Except.bind (after.feed outside pieces) _ = _
          rw [rest]
          rfl
        · rw [← List.append_assoc]
          exact refused
    · rw [pushed]
      exact .inr ⟨message, rfl, piece, refused, List.prefix_append _ _⟩

/-- What is heard of a whole text. -/
def wholeText (text : Text) : Except String Heard :=
  if Structured text then do
    let found ← hears (advance outside true (.between text) 0)
    let _ ← parseAtemOutput outside text
    .ok found.1
  else .ok ⟨text, [], []⟩

theorem finish_fed (fed : Fed outside text parser first) :
    (parser.finish outside).map (fun found => first ++ heard found.1) = fails (wholeText outside text) := by
  rw [wholeText, AtemStreamParser.finish]
  cases fed with
  | unclear is =>
    obtain ⟨events, drained, same⟩ := drain_plain outside true [] text
    rw [if_neg (not_structured is),
      drain_of_discriminate outside false rfl (by rw [discriminate_finishing, decide_eq_false (not_structured is)])]
    rw [List.nil_append] at drained
    show Except.map _ (Except.bind (AtemStreamParser.drain outside true ⟨text, some false, 0, size [], none, 0⟩) _) = _
    rw [drained]
    show Except.ok (heard [] ++ heard events) = _
    rw [same]
    rfl
  | plain is =>
    have plain : ¬Structured text := by
      rw [structured_iff is]
      exact Bool.false_ne_true
    obtain ⟨events, drained, same⟩ := drain_plain outside true text []
    rw [List.append_nil] at drained
    rw [if_neg plain, drained]
    show Except.ok (_ ++ heard events) = _
    rw [same, Heard.append_def, List.append_nil]
    rfl
  | @structured _ place emitted _ is stands settled goesOn =>
    rw [if_pos ((structured_iff is).mpr rfl)]
    have whole := goesOn true []
    rw [List.append_nil, Place.more_nil] at whole
    rw [whole]
    have follows := drain_structured outside true stands
    cases advanced : advance outside true place emitted with
    | error message =>
      rw [advanced] at follows
      replace follows : AtemStreamParser.drain outside true parser = _ := follows
      rw [follows]
      rfl
    | ok found =>
      obtain ⟨events, place', emitted'⟩ := found
      rw [advanced] at follows
      obtain ⟨after, drained, stands'⟩ := follows
      rw [drained]
      show Except.map _ (if after.structured = some true then _ else _) = _
      rw [if_pos stands'.structured_eq.1, stands'.raw_eq]
      cases parsed : parseAtemOutput outside text with
      | error message =>
        simp only [hears, Hearing.after, Except.map, bind, Except.bind, fails, Except.mapError]
      | ok output =>
        simp only [hears, Hearing.after, Except.map, bind, Except.bind, fails, Except.mapError]

/-- **What is heard of a text does not depend on the pieces that it arrives in**, and the parser does not panic. -/
theorem stream_eq (pieces : List Text) :
    (AtemStreamParser.stream outside pieces).map heard = fails (wholeText outside pieces.flatten) := by
  rw [AtemStreamParser.stream]
  rcases feed_fed outside (fed_default outside) pieces with ⟨events, after, fed_, fed⟩ | ⟨message, fed_, more,
    refused, rest, same⟩
  · rw [fed_, ← List.nil_append pieces.flatten, ← finish_fed outside fed]
    show Except.map _ (Except.bind (after.finish outside) _) = _
    rw [heard_nil_append]
    cases after.finish outside with
    | error stop => rfl
    | ok found =>
      show Except.ok (heard (events ++ found.1)) = _
      rw [heard_append]
      rfl
  · rw [List.nil_append] at refused
    have structured : Structured pieces.flatten := by
      rw [← same]
      have decided := discriminate_more refused.1 true rest
      rw [discriminate_finishing, Option.some.injEq, decide_eq_true_iff] at decided
      exact decided
    rw [fed_, wholeText, if_pos structured, ← same, refused.2]
    rfl

end Muser.Atem
