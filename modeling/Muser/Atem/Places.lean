import Muser.Atem.Stream

/-! # Where a stream parser stands

The parser without its offsets: between two phases with what follows, or within a phase with its body.
What it does with a text is then a function of the text that is left, and a text that grows adds to what
it has done and changes none of it.
-/

namespace Muser.Atem

open Text

inductive Place where
  | between (rest : Text)
  | within (recipient body : Text) (emitted : ℕ)

/-- The recipient and the body of the phase that a text starts with. -/
def opening (finishing : Bool) (rest : Text) : Except String (Option (Text × Text)) :=
  if !startsWith rest startMarker && startsWith startMarker rest && !finishing then .ok none
  else
    let rest := (startMarker.isPrefixOf? rest).getD rest
    match recipientMarker.isPrefixOf? rest with
    | some text =>
      match splitOnce messageMarker text with
      | none => if finishing then .error "assistant recipient header omits <|message|>" else .ok none
      | some (name, body) =>
        if (trim name).isEmpty then .error "assistant recipient is empty" else .ok (some (trim name, body))
    | none =>
      match messageMarker.isPrefixOf? rest with
      | some body => .ok (some (userRecipient, body))
      | none => if finishing then .error "structured assistant phase omits a recipient header" else .ok none

namespace Place

def text : Place → Text
  | between rest => rest
  | within _ body _ => body

def more (added : Text) : Place → Place
  | between rest => between (rest ++ added)
  | within recipient body emitted => within recipient (body ++ added) emitted

/-- The phase that the parser is in, or comes into. -/
def enter (finishing : Bool) : Place → Except String (Option (Text × Text × ℕ))
  | between [] => .ok none
  | between rest => (opening finishing rest).map (Option.map fun both => (both.1, both.2, 0))
  | within recipient body emitted => .ok (some (recipient, body, emitted))

end Place

/-- A text of a phase, as an event. -/
def speak (recipient text : Text) : List AtemStreamEvent :=
  if spoken recipient && !text.isEmpty then [AtemActivePhase.event ⟨recipient, 0, 0⟩ text] else []

variable {Value : Type} (outside : Outside Value)

/-- The calls of a body. -/
def callsOf (recipient body : Text) : Except String (List ParsedToolCall) :=
  if spoken recipient then .ok []
  else do
    let calls ← parseAtemCalls outside body
    validateAtemRecipient outside recipient calls
    .ok calls

/-- What a phase starts with. -/
inductive Opening (rest recipient body : Text) : Prop
  | named {start name : Text} (starts : start = [] ∨ start = startMarker)
      (is : rest = start ++ recipientMarker ++ name ++ messageMarker ++ body)
      (clear : Clear messageMarker name) (trimmed : trim name = recipient) : Opening rest recipient body
  | unnamed {start : Text} (starts : start = [] ∨ start = startMarker) (is : rest = start ++ messageMarker ++ body)
      (user : recipient = userRecipient) : Opening rest recipient body

/-- A start marker that may be left out comes off a text that goes on with another marker. -/
theorem start_getD {start marker rest : Text} (starts : start = [] ∨ start = startMarker)
    (other : ¬startMarker <+: marker ++ rest) :
    (startMarker.isPrefixOf? (start ++ (marker ++ rest))).getD (start ++ (marker ++ rest)) = marker ++ rest := by
  rcases starts with rfl | rfl
  · rw [List.nil_append, isPrefixOf?_eq_none.mpr other, Option.getD_none]
  · rw [isPrefixOf?_eq_some.mpr rfl, Option.getD_some]

/-- A text does not wait for more of a start marker when another marker is there. -/
theorem not_waits {start marker rest : Text} (starts : start = [] ∨ start = startMarker) (other : ¬marker <+: startMarker) :
    (!startsWith (start ++ (marker ++ rest)) startMarker && startsWith startMarker (start ++ (marker ++ rest))) = false := by
  rw [Bool.and_eq_false_iff, startsWith, startsWith]
  rcases starts with rfl | rfl
  · right
    rw [List.nil_append, ← Bool.not_eq_true, List.isPrefixOf_iff_prefix]
    exact fun is => other ((List.prefix_append marker rest).trans is)
  · left
    rw [Bool.not_eq_false', List.isPrefixOf_iff_prefix]
    exact List.prefix_append _ _

theorem not_start_recipient (rest : Text) : ¬startMarker <+: recipientMarker ++ rest :=
    not_prefix_append (by decide) (by decide)

theorem not_start_message (rest : Text) : ¬startMarker <+: messageMarker ++ rest := not_prefix_append (by decide) (by decide)

theorem not_recipient_message (rest : Text) : ¬recipientMarker <+: messageMarker ++ rest :=
    not_prefix_append (by decide) (by decide)

variable {rest recipient body : Text} {finishing : Bool}

theorem Opening.opening_eq (is : Opening rest recipient body) (finishing : Bool) :
    opening finishing rest = if recipient.isEmpty then
      .error "assistant recipient is empty" else .ok (some (recipient, body)) := by
  cases is with
  | @named start name starts same clear trimmed =>
    have whole : rest = start ++ (recipientMarker ++ (name ++ messageMarker ++ body)) := by
      rw [same]
      simp only [List.append_assoc]
    rw [whole, opening, if_neg (by rw [not_waits starts (by decide)]; simp), start_getD starts (not_start_recipient _)]
    simp only [isPrefixOf?_eq_some.mpr (show recipientMarker ++ (name ++ messageMarker ++ body) = _ from rfl),
      (splitOnce_eq_some (by decide)).mpr ⟨rfl, clear⟩, trimmed]
  | @unnamed start starts same user =>
    have whole : rest = start ++ (messageMarker ++ body) := by rw [same, List.append_assoc]
    rw [whole, opening, if_neg (by rw [not_waits starts (by decide)]; simp), start_getD starts (not_start_message _)]
    simp only [isPrefixOf?_eq_none.mpr (not_recipient_message _),
      isPrefixOf?_eq_some.mpr (show messageMarker ++ body = _ from rfl)]
    rw [user]
    rfl

/-- A text opens a phase, or more must come for one. -/
theorem opening_cases (rest : Text) :
    (∃ recipient body, Opening rest recipient body) ∨ opening false rest = .ok none ∧ ∃ message,
      opening true rest = .error message := by
  have starts : ∃ start, (start = [] ∨ start = startMarker) ∧ rest = start ++ (startMarker.isPrefixOf? rest).getD rest := by
    cases marked : startMarker.isPrefixOf? rest with
    | none => exact ⟨[], .inl rfl, rfl⟩
    | some left => exact ⟨startMarker, .inr rfl, isPrefixOf?_eq_some.mp marked⟩
  obtain ⟨start, starts, whole⟩ := starts
  rw [opening, opening]
  simp only [Bool.not_true, Bool.and_false, Bool.false_eq_true, if_false]
  generalize (startMarker.isPrefixOf? rest).getD rest = left at whole ⊢
  cases named : recipientMarker.isPrefixOf? left with
  | some text =>
    rw [isPrefixOf?_eq_some] at named
    cases found : splitOnce messageMarker text with
    | none =>
      right
      simp [found]
    | some both =>
      rw [splitOnce_eq_some (by decide)] at found
      refine .inl ⟨_, both.2, .named starts ?_ found.2 rfl⟩
      rw [whole, named, found.1]
      simp only [List.append_assoc]
  | none =>
    cases messaged : messageMarker.isPrefixOf? left with
    | some body =>
      rw [isPrefixOf?_eq_some] at messaged
      exact .inl ⟨userRecipient, body, .unnamed starts (by rw [whole, messaged, List.append_assoc]) rfl⟩
    | none =>
      right
      simp

theorem opening_some (is : opening finishing rest = .ok (some (recipient, body))) :
    Opening rest recipient body ∧ recipient ≠ [] := by
  rcases opening_cases rest with ⟨recipient', body', opens⟩ | ⟨waits, message, fails⟩
  · rw [opens.opening_eq] at is
    split at is
    · cases is
    · next nonempty =>
      cases is
      exact ⟨opens, by simpa using nonempty⟩
  · cases finishing with
    | false => rw [waits] at is; cases is
    | true => rw [fails] at is; cases is

theorem Opening.more (is : Opening rest recipient body) (added : Text) :
    Opening (rest ++ added) recipient (body ++ added) := by
  cases is with
  | named starts same clear trimmed => exact .named starts (by rw [same]; simp only [List.append_assoc]) clear trimmed
  | unnamed starts same user => exact .unnamed starts (by rw [same]; simp only [List.append_assoc]) user

theorem Opening.exists_before (is : Opening rest recipient body) :
    ∃ before, rest = before ++ messageMarker ++ body := by
  cases is with
  | named _ is => exact ⟨_, is⟩
  | unnamed _ is => exact ⟨_, is⟩

theorem enter_between {said : ℕ} (is : (Place.between rest).enter finishing = .ok (some (recipient, body, said))) :
    opening finishing rest = .ok (some (recipient, body)) ∧ said = 0 := by
  cases rest with
  | nil => cases is
  | cons first rest =>
    rw [Place.enter] at is
    · cases opened : opening finishing (first :: rest) with
      | error message =>
        rw [opened] at is
        cases is
      | ok both =>
        rw [opened] at is
        cases both with
        | none => cases is
        | some both =>
          cases is
          exact ⟨rfl, rfl⟩
    · exact List.cons_ne_nil _ _

theorem enter_le {place : Place} {recipient body : Text} {said : ℕ}
    (is : place.enter finishing = .ok (some (recipient, body, said))) : body.length ≤ place.text.length := by
  cases place with
  | between rest =>
    obtain ⟨before, same⟩ := (opening_some (enter_between is).1).1.exists_before
    rw [Place.text, same, List.length_append]
    omega
  | within recipient' body' said' =>
    cases is
    exact le_rfl

/-- How far a parser comes with a text: what it emits, where it stands then, and how many calls it has emitted. -/
def advance (finishing : Bool) (place : Place) (emitted : ℕ) : Except String (List AtemStreamEvent × Place × ℕ) :=
  match _entered : place.enter finishing with
  | .error message => .error message
  | .ok none => .ok ([], place, emitted)
  | .ok (some (recipient, body, said)) =>
    match _found : splitOnce phaseEnd body with
    | none => do
      let safe := if finishing then body.length else body.length - markerSuffixLen body phaseEnd
      let calls ← if finishing then callsOf outside recipient body else .ok []
      .ok (speak recipient ((body.take safe).drop said) ++ numbered emitted calls,
        .within recipient body (if spoken recipient then max said safe else said), emitted + calls.length)
    | some (inside, after) => do
      let calls ← callsOf outside recipient inside
      let (later, stands) ← advance finishing (.between after) (emitted + calls.length)
      .ok (speak recipient (inside.drop said) ++ numbered emitted calls ++ later, stands)
termination_by place.text.length
decreasing_by
  have less := after_lt (by decide) _found
  exact lt_of_lt_of_le less (enter_le _entered)

section Advance

variable {finishing : Bool} {place : Place} {emitted said : ℕ} {recipient body inside after : Text}

theorem advance_of_error {message : String} (entered : place.enter finishing = .error message) :
    advance outside finishing place emitted = .error message := by
  rw [advance]
  split
  · next same => rw [entered] at same; cases same; rfl
  · next same => rw [entered] at same; cases same
  · next same => rw [entered] at same; cases same

theorem advance_of_none (entered : place.enter finishing = .ok none) :
    advance outside finishing place emitted = .ok ([], place, emitted) := by
  rw [advance]
  split
  · next same => rw [entered] at same; cases same
  · rfl
  · next same => rw [entered] at same; cases same

theorem advance_of_open (entered : place.enter finishing = .ok (some (recipient, body, said)))
    (ended : splitOnce phaseEnd body = none) :
    advance outside finishing place emitted = (do
      let safe := if finishing then body.length else body.length - markerSuffixLen body phaseEnd
      let calls ← if finishing then callsOf outside recipient body else .ok []
      .ok (speak recipient ((body.take safe).drop said) ++ numbered emitted calls,
        .within recipient body (if spoken recipient then max said safe else said), emitted + calls.length)) := by
  rw [advance]
  split
  · next same => rw [entered] at same; cases same
  · next same => rw [entered] at same; cases same
  · next same =>
    rw [entered] at same
    cases same
    split
    · rfl
    · next same => rw [ended] at same; cases same

theorem advance_of_ended (entered : place.enter finishing = .ok (some (recipient, body, said)))
    (ended : splitOnce phaseEnd body = some (inside, after)) :
    advance outside finishing place emitted = (do
      let calls ← callsOf outside recipient inside
      let (later, stands) ← advance outside finishing (.between after) (emitted + calls.length)
      .ok (speak recipient (inside.drop said) ++ numbered emitted calls ++ later, stands)) := by
  rw [advance]
  split
  · next same => rw [entered] at same; cases same
  · next same => rw [entered] at same; cases same
  · next same =>
    rw [entered] at same
    cases same
    split
    · next same => rw [ended] at same; cases same
    · next same =>
      rw [ended] at same
      cases same
      rfl

end Advance

end Muser.Atem
