import Muser.Atem.Pieces

/-! # A text as phases

What a text of phases says: to the user, to the assistant itself, and to tools.
-/

namespace Muser.Atem

open Text

/-- A phase without its markers. -/
structure Phase where
  recipient : Text
  body : Text

/-- A text that is made of phases. -/
inductive Phased : Text → List Phase → Prop
  | none : Phased [] []
  | last {text recipient body : Text} (opens : Opening text recipient body) (named : recipient ≠ [])
      (open_ : splitOnce phaseEnd body = .none) : Phased text [⟨recipient, body⟩]
  | next {text recipient body inside after : Text} {phases : List Phase} (opens : Opening text recipient body)
      (named : recipient ≠ [])
      (ended : splitOnce phaseEnd body = some (inside, after)) (rest : Phased after phases) :
        Phased text (⟨recipient, inside⟩ :: phases)

variable {Value : Type} (outside : Outside Value)

/-- What is heard of phases, with calls counted on. -/
def hearPhases : ℕ → List Phase → Except String Heard
  | _, [] => .ok (heard [])
  | emitted, phase :: phases => do
    let calls ← callsOf outside phase.recipient phase.body
    let later ← hearPhases (emitted + calls.length) phases
    .ok (.said phase.recipient phase.body ++ heard (numbered emitted calls) ++ later)

variable {outside}

theorem enter_of_opening {text recipient body : Text} (opens : Opening text recipient body) (named : recipient ≠ [])
    (finishing : Bool) :
    (Place.between text).enter finishing = .ok (some (recipient, body, 0)) := by
  rw [enter_of_nonempty opens.nonempty, opens.opening_eq, if_neg (by simpa using named)]
  rfl

variable {phases : List Phase} {text : Text}

theorem hears_of_phased (is : Phased text phases) (emitted : ℕ) :
    (hears (advance outside true (.between text) emitted)).map (·.1) = hearPhases outside emitted phases := by
  induction is generalizing emitted with
  | none =>
    rw [advance_of_none outside rfl]
    rfl
  | @last text recipient body opens named open_ =>
    rw [hears_of_open outside (enter_of_opening opens named true) open_ (show body.length = _ from rfl), if_pos rfl,
      List.take_length, List.drop_zero,
      hearPhases]
    cases callsOf outside recipient body with
    | error message => rfl
    | ok calls =>
      show Except.ok _ = Except.ok (_ ++ heard [])
      rw [heard_append_nil]
  | @next text recipient body inside after phases opens named ended rest ih =>
    rw [hears_of_ended outside (enter_of_opening opens named true) ended, List.drop_zero, hearPhases]
    cases callsOf outside recipient inside with
    | error message => rfl
    | ok calls =>
      show Except.map _ (Hearing.after _ (hears _)) = Except.bind (hearPhases outside _ phases) _
      rw [← ih]
      cases hears (advance outside true (.between after) (emitted + calls.length)) with
      | error message => rfl
      | ok found => rfl

variable {emitted : ℕ} {output result : ParsedAtemOutput} {calls : List ParsedToolCall} {found : Heard}

/-- A text that is read to its end is made of phases. -/
theorem phased_of_hears {found : Heard × Place × ℕ}
    (is : hears (advance outside true (.between text) emitted) = .ok found) : ∃ phases, Phased text phases := by
  induction long : text.length using Nat.strong_induction_on generalizing text emitted found with
  | _ length ih =>
    by_cases empty : text = []
    · exact ⟨[], empty ▸ .none⟩
    · rcases opening_cases text with ⟨recipient, body, opens⟩ | ⟨-, message, fails⟩
      · have entered : (Place.between text).enter true = (opening true text).map _ := enter_of_nonempty empty true
        rw [opens.opening_eq] at entered
        split at entered
        · rw [hears_of_error outside entered] at is
          cases is
        · next named =>
          replace named : recipient ≠ [] := by simpa using named
          replace entered := enter_of_opening opens named true
          cases ended : splitOnce phaseEnd body with
          | none => exact ⟨_, .last opens named ended⟩
          | some both =>
            obtain ⟨inside, after⟩ := both
            rw [hears_of_ended outside entered ended] at is
            obtain ⟨calls, -, later⟩ := bind_eq_ok_iff.mp is
            cases further : hears (advance outside true (.between after) (emitted + calls.length)) with
            | error message =>
              rw [further] at later
              cases later
            | ok found' =>
              have shorter : after.length < length := by
                rw [← long]
                exact lt_of_lt_of_le (after_lt (by decide) ended) (enter_le entered)
              obtain ⟨phases, rest⟩ := ih after.length shorter further rfl
              exact ⟨_, .next opens named ended rest⟩
      · have entered : (Place.between text).enter true = (opening true text).map _ := enter_of_nonempty empty true
        rw [fails] at entered
        rw [hears_of_error outside entered] at is
        cases is

/-- The end of a phase does not start in what a phase starts with. -/
theorem apart_start {start : Text} (starts : start = [] ∨ start = startMarker) (rest : Text) :
    Apart phaseEnd start rest := by
  rcases starts with rfl | rfl
  · exact apart_of_tails rest (by decide)
  · exact apart_of_tails rest (by decide)

theorem apart_recipient (rest : Text) : Apart phaseEnd recipientMarker rest := apart_of_tails rest (by decide)

theorem apart_message (rest : Text) : Apart phaseEnd messageMarker rest := apart_of_tails rest (by decide)

theorem apart_name {name : Text} (absent : ¬phaseEnd <:+: name) (rest : Text) :
    Apart phaseEnd name (messageMarker ++ rest) := by
  refine apart_of_absent absent fun tail mem => ?_
  have differ : ∀ tail ∈ phaseEnd.tails, tail = [] ∨ tail = phaseEnd ∨ ¬tail <+: messageMarker ∧
    ¬messageMarker <+: tail := by decide
  exact (differ tail mem).imp id (Or.imp id fun both => not_prefix_append both.1 both.2)

theorem trim_start {start rest : Text} (starts : start = [] ∨ start = startMarker) (other : ¬startMarker <+: rest) :
    trimStartMatches startMarker (start ++ rest) = rest := by
  rcases starts with rfl | rfl
  · exact trimStartMatches_of_not other
  · exact trimStartMatches_once (by decide) other

/-- How a text that opens a phase is read up to the end of a phase. -/
theorem split_of_opening {text recipient body : Text} (opens : Opening text recipient body) :
    (∃ front, text = front ++ body ∧
      splitOnce phaseEnd text = (splitOnce phaseEnd body).map (fun both => (front ++ both.1, both.2)) ∧
      ∀ inside, address (front ++ inside) = .ok (recipient, inside)) ∨
    ∃ piece after message, splitOnce phaseEnd text = some (piece, after) ∧ address piece = .error message := by
  cases opens with
  | @unnamed start starts same user =>
    refine .inl ⟨start ++ messageMarker, same, ?_, fun inside => ?_⟩
    · rw [same]
      exact splitOnce_front (apart_append (apart_start starts _) (apart_message body))
    · rw [address, List.append_assoc, trim_start starts (not_start_message inside)]
      simp only [isPrefixOf?_eq_none.mpr (not_recipient_message inside),
        isPrefixOf?_eq_some.mpr (show messageMarker ++ inside = _ from rfl), user]
  | @named start name starts same clear trimmed =>
    cases found : splitOnce phaseEnd name with
    | none =>
      rw [splitOnce_eq_none (by decide)] at found
      refine .inl ⟨start ++ recipientMarker ++ name ++ messageMarker, same, ?_, fun inside => ?_⟩
      · rw [same]
        refine splitOnce_front (apart_append
          (apart_append (apart_append (apart_start starts _) (apart_recipient _)) ?_) (apart_message body))
        exact apart_name found body
      · have whole : start ++ recipientMarker ++ name ++ messageMarker ++ inside = start ++
            (recipientMarker ++ (name ++ messageMarker ++ inside)) := by
          simp only [List.append_assoc]
        rw [whole, address, trim_start starts (not_start_recipient _)]
        simp only [isPrefixOf?_eq_some.mpr (show recipientMarker ++ (name ++ messageMarker ++ inside) = _ from rfl),
          (splitOnce_eq_some (by decide)).mpr ⟨rfl, clear⟩, trimmed]
    | some both =>
      obtain ⟨front, rest⟩ := both
      rw [splitOnce_eq_some (by decide)] at found
      obtain ⟨rfl, apart⟩ := found
      refine .inr ⟨start ++ (recipientMarker ++ front), rest ++ messageMarker ++ body,
        "assistant recipient header omits <|message|>", ?_, ?_⟩
      · rw [splitOnce_eq_some (by decide)]
        refine ⟨by rw [same]; simp only [List.append_assoc], ?_⟩
        exact apart_append (apart_start starts _) (apart_append (apart_recipient _) apart)
      · have absent : ¬messageMarker <:+: front := by
          rintro ⟨left, right, rfl⟩
          refine clear left (messageMarker ++ (right ++ (phaseEnd ++ rest))) (by simp only [List.append_assoc])
            (List.append_ne_nil_of_left_ne_nil (by decide) _) ?_
          rw [List.append_assoc]
          exact List.prefix_append _ _
        rw [address, trim_start starts (not_start_recipient _)]
        simp only [isPrefixOf?_eq_some.mpr (show recipientMarker ++ front = _ from rfl),
          (splitOnce_eq_none (by decide)).mpr absent]

/-- Add what phases say to the output. -/
def ParsedAtemOutput.addAll (outside : Outside Value) (output : ParsedAtemOutput) (phases : List Phase) :
    Except String ParsedAtemOutput :=
  phases.foldlM (fun output phase => output.add outside phase.recipient phase.body) output

/-- What a text of phases parses as is what its phases say. -/
theorem addAll_of_parsed (is : Phased text phases)
    (parsed : (split phaseEnd text).foldlM (addPhase outside) output = .ok result) :
    output.addAll outside phases = .ok result := by
  induction is generalizing output with
  | none =>
    rw [split_eq (by decide)] at parsed
    exact parsed
  | @last text recipient body opens named open_ =>
    rw [split_eq (by decide)] at parsed
    rcases split_of_opening opens with ⟨front, whole, found, reads⟩ | ⟨piece, after, message, found, fails⟩
    · rw [found, open_, Option.map_none, List.foldlM_cons] at parsed
      obtain ⟨next, added, done⟩ := bind_eq_ok_iff.mp parsed
      cases done
      rw [addPhase, whole, reads] at added
      rw [ParsedAtemOutput.addAll, List.foldlM_cons]
      exact bind_eq_ok_iff.mpr ⟨result, added, rfl⟩
    · rw [found, List.foldlM_cons, addPhase, fails] at parsed
      cases parsed
  | @next text recipient body inside after phases opens named ended rest ih =>
    rw [split_eq (by decide)] at parsed
    rcases split_of_opening opens with ⟨front, whole, found, reads⟩ | ⟨piece, after, message, found, fails⟩
    · rw [found, ended, Option.map_some, List.foldlM_cons] at parsed
      obtain ⟨next, added, later⟩ := bind_eq_ok_iff.mp parsed
      rw [addPhase, reads] at added
      rw [ParsedAtemOutput.addAll, List.foldlM_cons]
      exact bind_eq_ok_iff.mpr ⟨next, added, ih later⟩
    · rw [found, List.foldlM_cons, addPhase, fails] at parsed
      cases parsed

/-- An output, as it is heard. -/
def ParsedAtemOutput.heard (output : ParsedAtemOutput) : Heard :=
  ⟨output.content, output.reasoning, output.toolCalls.mapIdx fun index call => (index, call)⟩

theorem heard_numbered (emitted : ℕ) (calls : List ParsedToolCall) :
    Atem.heard (numbered emitted calls) = ⟨[], [], calls.mapIdx fun index call => (emitted + index, call)⟩ := by
  induction calls generalizing emitted with
  | nil => rfl
  | cons call calls ih =>
    have rest : numbered emitted (call :: calls) = [.toolCall emitted call] ++ numbered (emitted + 1) calls := by
      rw [numbered, List.mapIdx_cons, numbered]
      simp only [Nat.add_zero, List.singleton_append, List.cons.injEq, true_and]
      congr 1
      funext index
      rw [Nat.add_assoc, Nat.add_comm 1]
    rw [rest, heard_append, ih, List.mapIdx_cons, Heard.append_def]
    simp only [Atem.heard, AtemStreamEvent.contents, AtemStreamEvent.reasonings, AtemStreamEvent.toolCalls,
      List.flatMap_cons, List.flatMap_nil,
      List.append_nil, List.singleton_append, Nat.add_zero, Heard.mk.injEq, List.cons.injEq, true_and]
    congr 1
    funext index
    rw [Nat.add_assoc, Nat.add_comm 1]

/-- A block of calls has an opening tag. -/
theorem includes_of_calls {body : Text} (is : parseAtemCalls outside body = .ok calls) :
    includes body callsOpen = true := by
  rw [parseAtemCalls] at is
  split at is
  · cases is
  · next cursor found =>
    rw [block, Option.bind_eq_some_iff] at found
    obtain ⟨inner, starts, -⟩ := found
    rw [isPrefixOf?_eq_some] at starts
    rw [includes_iff (by decide)]
    refine List.IsInfix.trans ?_ ( trim_infix body)
    rw [starts]
    exact (List.prefix_append _ _).isInfix

theorem said_nil (recipient : Text) : Heard.said recipient [] = Atem.heard [] := by
  rw [Heard.said]
  split
  · rfl
  · split
    · rfl
    · rfl

/-- What one phase adds. -/
theorem heard_of_add {recipient body : Text} {output next : ParsedAtemOutput}
    (user : recipient = userRecipient → ¬callsOpen <:+: body) (counted : callsOf outside recipient body = .ok calls)
    (added : output.add outside recipient body = .ok next) :
    next.heard = output.heard ++ (.said recipient body ++ Atem.heard (numbered output.toolCalls.length calls)) ∧
      next.toolCalls.length = output.toolCalls.length + calls.length := by
  rw [callsOf] at counted
  rw [ParsedAtemOutput.add] at added
  by_cases speaks : spoken recipient
  · rw [if_pos speaks] at counted
    cases counted
    rw [show numbered output.toolCalls.length [] = [] from rfl, heard_append_nil]
    by_cases empty : body = []
    · subst empty
      cases added
      exact ⟨by rw [said_nil, heard_append_nil], rfl⟩
    · rw [if_neg (by simpa using empty)] at added
      by_cases toSelf : recipient = selfRecipient
      · rw [if_pos toSelf] at added
        cases added
        rw [Heard.said, if_pos toSelf]
        simp [ParsedAtemOutput.heard, Heard.append_def]
      · have toUser : recipient = userRecipient := by
          rw [spoken, Bool.or_eq_true, decide_eq_true_eq, decide_eq_true_eq] at speaks
          exact speaks.resolve_left toSelf
        have absent : ¬includes body callsOpen = true := by
          rw [includes_iff (by decide)]
          exact user toUser
        rw [if_neg toSelf, if_neg absent, if_pos toUser] at added
        cases added
        rw [Heard.said, if_neg toSelf, if_pos toUser]
        simp [ParsedAtemOutput.heard, Heard.append_def]
  · rw [if_neg speaks] at counted
    obtain ⟨found, parsed, checked⟩ := bind_eq_ok_iff.mp counted
    obtain ⟨valid, same⟩ := check_eq_ok_iff.mp checked
    cases same
    have opened := includes_of_calls parsed
    rw [spoken, Bool.or_eq_true, decide_eq_true_eq, decide_eq_true_eq, not_or] at speaks
    have some_ : body ≠ [] := by
      rintro rfl
      cases opened
    rw [if_neg (by simpa using some_), if_neg speaks.1, if_pos opened, parsed] at added
    replace added := (check_eq_ok_iff.mp added).2
    cases added
    rw [Heard.said, if_neg speaks.1, if_neg speaks.2, heard_numbered]
    simp [ParsedAtemOutput.heard, Heard.append_def, List.mapIdx_append, Nat.add_comm]

/-- What is heard of phases is what they add to an output. -/
theorem heard_of_addAll {later : Heard}
    (user : ∀ phase ∈ phases, phase.recipient = userRecipient → ¬callsOpen <:+: phase.body)
    (hears : hearPhases outside output.toolCalls.length phases = .ok later)
    (added : output.addAll outside phases = .ok result) :
    result.heard = output.heard ++ later := by
  induction phases generalizing output later with
  | nil =>
    cases hears
    cases added
    exact (heard_append_nil _).symm
  | cons phase phases ih =>
    rw [hearPhases] at hears
    obtain ⟨calls, counted, hears⟩ := bind_eq_ok_iff.mp hears
    obtain ⟨rest, heardRest, same⟩ := bind_eq_ok_iff.mp hears
    cases same
    rw [ParsedAtemOutput.addAll, List.foldlM_cons] at added
    obtain ⟨next, addedPhase, added⟩ := bind_eq_ok_iff.mp added
    obtain ⟨said, length⟩ := heard_of_add (user phase (List.mem_cons_self ..)) counted addedPhase
    rw [← length] at heardRest
    rw [ih (fun other mem => user other (List.mem_cons_of_mem _ mem)) heardRest added, said, Heard.append_assoc]

/-- What phases say to the user. -/
def userText (phases : List Phase) : Text := (phases.filter fun phase => phase.recipient = userRecipient).flatMap Phase.body

/-- What phases say to the assistant itself. -/
def selfText (phases : List Phase) : Text := (phases.filter fun phase => phase.recipient = selfRecipient).flatMap Phase.body

theorem said_content (recipient text : Text) : (Heard.said recipient text).content = userText [⟨recipient, text⟩] := by
  rw [Heard.said, userText]
  split
  · next toSelf =>
    have differ : selfRecipient ≠ userRecipient := by decide
    simp [toSelf, differ]
  · split
    · next toUser => simp [toUser]
    · next toUser => simp [toUser]

theorem said_reasoning (recipient text : Text) : (Heard.said recipient text).reasoning = selfText [⟨recipient, text⟩] := by
  rw [Heard.said, selfText]
  split
  · next toSelf => simp [toSelf]
  · next toSelf =>
    split
    · next toUser => simp [toSelf]
    · next toUser => simp [toSelf]

theorem userText_cons (phase : Phase) (phases : List Phase) : userText (phase :: phases) = userText [phase] ++
    userText phases := by
  rw [userText, userText, userText, ← List.flatMap_append, ← List.filter_append, List.singleton_append]

theorem selfText_cons (phase : Phase) (phases : List Phase) : selfText (phase :: phases) = selfText [phase] ++
    selfText phases := by
  rw [selfText, selfText, selfText, ← List.flatMap_append, ← List.filter_append, List.singleton_append]

/-- Calls say nothing. -/
theorem said_numbered (recipient text : Text) (emitted : ℕ) (calls : List ParsedToolCall) (later : Heard) :
    (Heard.said recipient text ++ Atem.heard (numbered emitted calls) ++ later).content =
      userText [⟨recipient, text⟩] ++ later.content ∧
      (Heard.said recipient text ++ Atem.heard (numbered emitted calls) ++ later).reasoning =
        selfText [⟨recipient, text⟩] ++ later.reasoning := by
  rw [heard_numbered, Heard.append_def, Heard.append_def, ← said_content, ← said_reasoning]
  simp only [List.append_nil, and_self]

/-- What is heard of phases is what they say to the user and to the assistant itself. -/
theorem texts_of_hearPhases (is : hearPhases outside emitted phases = .ok found) :
    found.content = userText phases ∧ found.reasoning = selfText phases := by
  induction phases generalizing emitted found with
  | nil =>
    cases is
    exact ⟨rfl, rfl⟩
  | cons phase phases ih =>
    rw [hearPhases] at is
    obtain ⟨calls, -, is⟩ := bind_eq_ok_iff.mp is
    obtain ⟨later, rest, same⟩ := bind_eq_ok_iff.mp is
    cases same
    rw [userText_cons, selfText_cons, ← (ih rest).1, ← (ih rest).2]
    exact said_numbered phase.recipient phase.body emitted calls later

/-- What has been said of a phase that has begun, none of which the end of the phase can take back. -/
structure Begun (body : Text) (said : ℕ) : Prop where
  open_ : splitOnce phaseEnd body = none
  within : said ≤ body.length
  before : ∀ added inside after, splitOnce phaseEnd (body ++ added) = some (inside, after) → said ≤ inside.length

/-- A text of which phases have been read. -/
inductive Read : Text → List Phase → Place → Prop
  | rest (text : Text) : Read text [] (.between text)
  | within {text recipient body : Text} {said : ℕ} (opens : Opening text recipient body) (begun : Begun body said) :
    Read text [] (.within recipient body said)
  | next {text recipient body inside after : Text} {phases : List Phase} {place : Place}
      (opens : Opening text recipient body)
      (ended : splitOnce phaseEnd body = some (inside, after)) (rest : Read after phases place) :
    Read text (⟨recipient, inside⟩ :: phases) place

/-- What has been said to the user of the phase that has begun. -/
def Place.userText : Place → Text
  | between _ => []
  | within recipient body said => if recipient = userRecipient then body.take said else []

/-- What has been heard of the beginning of a text is what its phases say to the user. -/
theorem read_of_hears {emitted emitted' : ℕ} {place : Place}
    (is : hears (advance outside false (.between text) emitted) = .ok (found, place, emitted')) :
    ∃ phases, Read text phases place ∧ found.content = userText phases ++ place.userText := by
  induction long : text.length using Nat.strong_induction_on generalizing text emitted found with
  | _ length ih =>
    cases entered : (Place.between text).enter false with
    | error message =>
      rw [hears_of_error outside entered] at is
      cases is
    | ok entry =>
      cases entry with
      | none =>
        rw [advance_of_none outside entered] at is
        cases is
        exact ⟨[], .rest text, rfl⟩
      | some entry =>
        obtain ⟨recipient, body, said⟩ := entry
        obtain ⟨opened, rfl⟩ := enter_between entered
        have opens := (opening_some opened).1
        cases ended : splitOnce phaseEnd body with
        | none =>
          obtain ⟨tail, ends, tailLength⟩ := markerSuffixLen_tail body phaseEnd (by decide) (by decide)
          rw [hears_of_open outside entered ended (show body.length - tail.length = _ by rw [tailLength]; rfl)] at is
          cases is
          refine ⟨[], .within opens ⟨ended, ?_, fun added inside after found => ?_⟩, ?_⟩
          · split
            · lia
            · lia
          · have := ends.le_before (by decide) ended found
            split
            · lia
            · lia
          · rw [show numbered emitted [] = [] from rfl, heard_append_nil, List.drop_zero, said_content,
              Place.userText, userText, userText]
            by_cases toUser : recipient = userRecipient
            · have speaks : spoken recipient = true := by rw [toUser]; decide
              rw [if_pos toUser, if_pos speaks, Nat.zero_max]
              simp [toUser]
            · rw [if_neg toUser]
              simp [toUser]
        | some both =>
          obtain ⟨inside, after⟩ := both
          rw [hears_of_ended outside entered ended] at is
          obtain ⟨calls, -, later⟩ := bind_eq_ok_iff.mp is
          cases further : hears (advance outside false (.between after) (emitted + calls.length)) with
          | error message =>
            rw [further] at later
            cases later
          | ok rest =>
            obtain ⟨found', place', emitted''⟩ := rest
            rw [further] at later
            cases later
            have shorter : after.length < length := by
              rw [← long]
              exact lt_of_lt_of_le (after_lt (by decide) ended) (enter_le entered)
            obtain ⟨phases, read, same⟩ := ih after.length shorter further rfl
            refine ⟨_, .next opens ended read, ?_⟩
            rw [List.drop_zero, (said_numbered recipient inside emitted calls found').1, same,
              userText_cons ⟨recipient, inside⟩ phases, List.append_assoc]

end Muser.Atem
