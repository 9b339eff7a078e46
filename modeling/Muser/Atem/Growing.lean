import Muser.Atem.Places

/-! # A text that grows

What a parser emits of the beginning of a text, followed by what it emits of the rest from where it then
stands, is what it emits of the whole.
-/

namespace Muser.Atem

open Text

/-- What is heard of a stream of events. -/
@[ext]
structure Heard where
  content : Text
  reasoning : Text
  calls : List (ℕ × ParsedToolCall)

namespace AtemStreamEvent

def contents : AtemStreamEvent → Text
  | content text => text
  | _ => []

def reasonings : AtemStreamEvent → Text
  | reasoning text => text
  | _ => []

def toolCalls : AtemStreamEvent → List (ℕ × ParsedToolCall)
  | toolCall index call => [(index, call)]
  | _ => []

end AtemStreamEvent

def heard (events : List AtemStreamEvent) : Heard :=
  ⟨events.flatMap AtemStreamEvent.contents, events.flatMap AtemStreamEvent.reasonings,
    events.flatMap AtemStreamEvent.toolCalls⟩

namespace Heard

def append (first second : Heard) : Heard :=
  ⟨first.content ++ second.content, first.reasoning ++ second.reasoning, first.calls ++ second.calls⟩

instance : Append Heard := ⟨append⟩

theorem append_def (first second : Heard) :
    first ++ second = ⟨first.content ++ second.content, first.reasoning ++ second.reasoning,
      first.calls ++ second.calls⟩ := rfl

protected theorem append_assoc (first second third : Heard) : first ++ second ++ third = first ++ (second ++ third) := by
  simp only [append_def, List.append_assoc]

end Heard

@[simp] theorem heard_append (events events' : List AtemStreamEvent) : heard (events ++ events') = heard events ++
    heard events' := by
  simp only [heard, List.flatMap_append, Heard.append_def]

@[simp] theorem heard_nil_append (later : Heard) : heard [] ++ later = later := rfl

@[simp] theorem heard_append_nil (first : Heard) : first ++ heard [] = first := by
  rw [Heard.append_def]
  ext1
  · exact List.append_nil _
  · exact List.append_nil _
  · exact List.append_nil _

/-- What a phase says. -/
def Heard.said (recipient text : Text) : Heard :=
  if recipient = selfRecipient then ⟨[], text, []⟩ else if recipient = userRecipient then ⟨text, [], []⟩ else ⟨[], [], []⟩

theorem heard_speak (recipient text : Text) : heard (speak recipient text) = .said recipient text := by
  rw [speak, Heard.said, spoken]
  by_cases toSelf : recipient = selfRecipient
  · cases text with
    | nil => simp [heard, toSelf]
    | cons first rest =>
      simp [heard, toSelf, AtemActivePhase.event, AtemStreamEvent.contents, AtemStreamEvent.reasonings,
        AtemStreamEvent.toolCalls]
  · by_cases toUser : recipient = userRecipient
    · have differ : userRecipient ≠ selfRecipient := by decide
      cases text with
      | nil => simp [heard, toUser, differ]
      | cons first rest =>
        simp [heard, toUser, differ, AtemActivePhase.event, AtemStreamEvent.contents, AtemStreamEvent.reasonings,
          AtemStreamEvent.toolCalls]
    · simp [heard, toSelf, toUser]

theorem said_append (recipient text text' : Text) : Heard.said recipient (text ++ text') = .said recipient text ++
    .said recipient text' := by
  rw [Heard.said, Heard.said, Heard.said]
  split
  · rfl
  · split
    · rfl
    · rfl

/-- A phase that has said a part goes on with the rest. -/
theorem said_drop {recipient text front rest : Text} (said : ℕ) (is : text = front ++ rest) :
    Heard.said recipient (text.drop said) =
      .said recipient (front.drop said) ++
        .said recipient (text.drop (if spoken recipient then max said front.length else said)) := by
  by_cases speaks : spoken recipient
  · rw [if_pos speaks, ← said_append, is, List.drop_append, List.drop_append,
      List.drop_eq_nil_of_le (le_max_right said front.length),
      List.nil_append, show max said front.length - front.length = said - front.length by omega]
  · rw [spoken, Bool.or_eq_true, decide_eq_true_eq, decide_eq_true_eq, not_or] at speaks
    simp only [Heard.said, if_neg speaks.1, if_neg speaks.2]
    rfl

/-- The result of a parser, as it is heard. -/
abbrev Hearing := Except String (Heard × Place × ℕ)

def hears (result : Except String (List AtemStreamEvent × Place × ℕ)) : Hearing := result.map fun found =>
    (heard found.1, found.2)

/-- What is heard after something. -/
def Hearing.after (first : Heard) (result : Hearing) : Hearing := result.map fun found => (first ++ found.1, found.2)

theorem Hearing.after_nil (result : Hearing) : result.after (heard []) = result := by
  cases result with
  | error message => rfl
  | ok found => rfl

theorem Hearing.after_after (first second : Heard) (result : Hearing) :
    (result.after second).after first = result.after (first ++ second) := by
  cases result with
  | error message => rfl
  | ok found =>
    rw [after, after, after]
    simp only [Except.map, Heard.append_assoc]

variable {Value : Type} (outside : Outside Value) {finishing : Bool} {place stands : Place} {emitted emitted' said : ℕ}
  {recipient body inside after : Text} {message : String} {events : List AtemStreamEvent}

theorem hears_of_error (entered : place.enter finishing = .error message) :
    hears (advance outside finishing place emitted) = .error message := by
  rw [advance_of_error outside entered]
  rfl

/-- A phase that has not ended. -/
theorem hears_of_open (entered : place.enter finishing = .ok (some (recipient, body, said)))
    (ended : splitOnce phaseEnd body = none)
    {safe : ℕ} (is : safe = if finishing then body.length else body.length - markerSuffixLen body phaseEnd) :
    hears (advance outside finishing place emitted) =
      ((if finishing then callsOf outside recipient body else .ok []).map fun calls =>
      (.said recipient ((body.take safe).drop said) ++ heard (numbered emitted calls),
        .within recipient body (if spoken recipient then max said safe else said), emitted + calls.length)) := by
  rw [advance_of_open outside entered ended, ← is, ← heard_speak]
  cases finishing with
  | false =>
    show Except.ok (heard (_ ++ numbered emitted []), _) = Except.ok _
    rw [heard_append]
  | true =>
    simp only [if_true]
    cases callsOf outside recipient body with
    | error message => rfl
    | ok calls =>
      show Except.ok (heard (_ ++ numbered emitted calls), _) = Except.ok _
      rw [heard_append]

/-- A phase that has ended. -/
theorem hears_of_ended (entered : place.enter finishing = .ok (some (recipient, body, said)))
    (ended : splitOnce phaseEnd body = some (inside, after)) :
    hears (advance outside finishing place emitted) = (do
      let calls ← callsOf outside recipient inside
      (hears (advance outside finishing (.between after) (emitted + calls.length))).after
        (.said recipient (inside.drop said) ++ heard (numbered emitted calls))) := by
  rw [advance_of_ended outside entered ended]
  cases callsOf outside recipient inside with
  | error message => rfl
  | ok calls =>
    show hears (advance outside finishing (.between after) (emitted + calls.length) >>= _) = Hearing.after _ (hears _)
    rw [← heard_speak, ← heard_append]
    cases advance outside finishing (.between after) (emitted + calls.length) with
    | error message => rfl
    | ok found =>
      show Except.ok (heard (_ ++ found.1), found.2) = _
      rw [heard_append]
      rfl

theorem enter_of_nonempty {rest : Text} (nonempty : rest ≠ []) (finishing : Bool) :
    (Place.between rest).enter finishing = (opening finishing rest).map (Option.map fun both => (both.1, both.2, 0)) := by
  cases rest with
  | nil => exact absurd rfl nonempty
  | cons first rest => rfl

theorem Opening.nonempty {rest : Text} (is : Opening rest recipient body) : rest ≠ [] := by
  obtain ⟨before, rfl⟩ := is.exists_before
  rintro none
  rw [List.append_eq_nil_iff, List.append_eq_nil_iff] at none
  exact absurd none.1.2 (by decide)

/-- A phase that has begun has begun in a longer text. -/
theorem enter_more (entered : place.enter false = .ok (some (recipient, body, said))) (finishing : Bool) (added : Text) :
    (place.more added).enter finishing = .ok (some (recipient, body ++ added, said)) := by
  cases place with
  | within recipient' body' said' =>
    cases entered
    rfl
  | between rest =>
    obtain ⟨opened, rfl⟩ := enter_between entered
    obtain ⟨opens, nonempty⟩ := opening_some opened
    have opens' := opens.more added
    rw [Place.more, enter_of_nonempty opens'.nonempty, opens'.opening_eq, if_neg (by simpa using nonempty)]
    rfl

theorem enter_error_more (entered : place.enter false = .error message) (finishing : Bool) (added : Text) :
    (place.more added).enter finishing = .error message := by
  cases place with
  | within recipient' body' said' => cases entered
  | between rest =>
    have nonempty : rest ≠ [] := by
      rintro rfl
      cases entered
    rw [enter_of_nonempty nonempty] at entered
    rcases opening_cases rest with ⟨recipient, body, opens⟩ | ⟨waits, -⟩
    · rw [opens.opening_eq] at entered
      rw [Place.more, enter_of_nonempty (opens.more added).nonempty, (opens.more added).opening_eq]
      split at entered
      · next none =>
        rw [if_pos none]
        cases entered
        rfl
      · cases entered
    · rw [waits] at entered
      cases entered

/-- A phase that has said what is safe goes on with the rest. -/
theorem open_more {added tail : Text} (ended : splitOnce phaseEnd body = none) (ends : TailOf body phaseEnd tail)
    (entered : place.enter finishing = .ok (some (recipient, body ++ added, said))) :
    hears (advance outside finishing place emitted) =
      Hearing.after (.said recipient ((body.take (body.length - tail.length)).drop said))
        (hears (advance outside finishing
          (.within recipient (body ++ added) (if spoken recipient then
            max said (body.length - tail.length) else said)) emitted)) := by
  have length : (body.take (body.length - tail.length)).length = body.length - tail.length := by
    rw [List.length_take]
    lia
  have goesOn : ∀ {text : Text}, body.take (body.length - tail.length) <+: text → Heard.said recipient (text.drop said) =
      .said recipient ((body.take (body.length - tail.length)).drop said) ++
        .said recipient (text.drop (if spoken recipient then max said (body.length - tail.length) else said)) := by
    rintro text ⟨rest, is⟩
    rw [said_drop said is.symm, length]
  have starts : body.take (body.length - tail.length) <+: body ++ added :=
    (List.take_prefix _ _).trans (List.prefix_append _ _)
  have entered' : (Place.within recipient (body ++ added) (if spoken recipient then
    max said (body.length - tail.length) else said)).enter finishing =
    .ok (some (recipient, body ++ added, _)) := rfl
  cases ended' : splitOnce phaseEnd (body ++ added) with
  | some both =>
    obtain ⟨inside, after⟩ := both
    have within := ends.le_before (by decide) ended ended'
    rw [hears_of_ended outside entered ended', hears_of_ended outside entered' ended']
    have whole : inside <+: body ++ added := by
      rw [((splitOnce_eq_some (by decide)).mp ended').1, List.append_assoc]
      exact List.prefix_append _ _
    rw [goesOn (List.prefix_of_prefix_length_le starts whole (by rw [length]; exact within))]
    cases callsOf outside recipient inside with
    | error message => rfl
    | ok calls =>
      show Hearing.after _ (hears _) = Hearing.after _ (Hearing.after _ (hears _))
      rw [Hearing.after_after, Heard.append_assoc]
  | none =>
    obtain ⟨tail', ends', length'⟩ := markerSuffixLen_tail (body ++ added) phaseEnd (by decide) (by decide)
    have further := ends.le_append ends'
    obtain ⟨safe, is⟩ : ∃ safe, safe = if finishing then
      (body ++ added).length else (body ++ added).length - markerSuffixLen (body ++ added) phaseEnd :=
      ⟨_, rfl⟩
    have within : body.length - tail.length ≤ safe := by
      rw [is, length']
      split
      · rw [List.length_append]
        lia
      · exact further
    rw [hears_of_open outside entered ended' is, hears_of_open outside entered' ended' is]
    rw [goesOn (List.prefix_of_prefix_length_le starts (List.take_prefix _ _) (by
      rw [length, List.length_take]
      have : safe ≤ (body ++ added).length := by
        rw [is]
        split
        · exact le_rfl
        · exact Nat.sub_le _ _
      lia))]
    have stands : (if spoken recipient then max said safe else said) =
        if spoken recipient then max (if spoken recipient then max said (body.length - tail.length) else said) safe
        else if spoken recipient then max said (body.length - tail.length) else said := by
      split
      · lia
      · rfl
    rw [← stands]
    cases (if finishing = true then callsOf outside recipient (body ++ added) else Except.ok []) with
    | error message => rfl
    | ok calls =>
      simp only [Hearing.after, Except.map, Heard.append_assoc]

/-- What is heard of more of a text by a parser that has had its beginning. -/
def resumed (finishing : Bool) (added : Text) : Except String (List AtemStreamEvent × Place × ℕ) → Hearing
  | .error message => .error message
  | .ok (events, stands, emitted) =>
    Hearing.after (heard events) (hears (advance outside finishing (stands.more added) emitted))

/-- What a parser does with the beginning of a text, it does with the text. A text that it fails on is not mended by more. -/
theorem advance_more (finishing : Bool) (added : Text) : hears (advance outside finishing (place.more added) emitted) =
    resumed outside finishing added (advance outside false place emitted) := by
  induction long : place.text.length using Nat.strong_induction_on generalizing place emitted with
  | _ length ih =>
    cases entered : place.enter false with
    | error message =>
      rw [advance_of_error outside entered]
      exact hears_of_error outside (enter_error_more entered finishing added)
    | ok found =>
      cases found with
      | none =>
        rw [advance_of_none outside entered]
        exact (Hearing.after_nil _).symm
      | some found =>
        obtain ⟨recipient, body, said⟩ := found
        have entered' := enter_more entered finishing added
        cases ended : splitOnce phaseEnd body with
        | some both =>
          obtain ⟨inside, after⟩ := both
          rw [advance_of_ended outside entered ended, hears_of_ended outside entered' (splitOnce_append (by decide) ended)]
          cases callsOf outside recipient inside with
          | error message => rfl
          | ok calls =>
            have shorter : after.length < length := by
              rw [← long]
              exact lt_of_lt_of_le (after_lt (by decide) ended) (enter_le entered)
            have rest := @ih after.length shorter (.between after) (emitted + calls.length) rfl
            rw [Place.more] at rest
            show Hearing.after _ (hears _) =
              resumed outside finishing added (advance outside false (.between after) (emitted + calls.length) >>= _)
            rw [rest]
            cases advance outside false (.between after) (emitted + calls.length) with
            | error message => rfl
            | ok found =>
              dsimp only [resumed, bind, Except.bind]
              rw [Hearing.after_after, heard_append, heard_append, heard_speak]
        | none =>
          obtain ⟨tail, ends, length⟩ := markerSuffixLen_tail body phaseEnd (by decide) (by decide)
          rw [advance_of_open outside entered ended, length]
          refine (open_more outside ended ends entered').trans ?_
          simp only [Bool.false_eq_true, if_false]
          dsimp only [resumed, bind, Except.bind]
          rw [heard_append, heard_speak, show numbered emitted [] = [] from rfl, heard_append_nil]
          rfl

end Muser.Atem
