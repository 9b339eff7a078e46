import Muser.Atem.Reading

/-! # Streaming and whole-text parsing

What is heard of an output does not depend on the pieces it arrives in. A plain output is passed on as it
is. An output with phases is heard as it is parsed, and the parser of the stream accepts fewer: each phase
has a header, and a phase that is addressed to a tool has calls.
-/

namespace Muser.Atem

open Text

variable {Value : Type} {outside : Outside Value} {text : Text}

/-- An output without the markers that the whole-text parser looks for. -/
structure Unmarked (text : Text) : Prop where
  phaseEnd : ¬Atem.phaseEnd <:+: text
  turnEnd : ¬Atem.turnEnd <:+: text
  calls : ¬callsOpen <:+: text
  start : ¬startMarker <+: text
  recipient : ¬recipientMarker <+: text
  message : ¬messageMarker <+: text

theorem parse_unmarked (is : Unmarked text) : parseAtemOutput outside text = .ok ⟨text, [], []⟩ := by
  have addressed : address text = .ok (userRecipient, text) := by
    rw [address, trimStartMatches_of_not is.start]
    simp only [isPrefixOf?_eq_none.mpr is.recipient, isPrefixOf?_eq_none.mpr is.message]
  have absent : ¬includes text callsOpen = true := by
    rw [includes_iff (by decide)]
    exact is.calls
  have added : addPhase outside ⟨[], [], []⟩ text = .ok ⟨text, [], []⟩ := by
    rw [addPhase, addressed]
    show ParsedAtemOutput.add outside _ userRecipient text = _
    rw [ParsedAtemOutput.add, if_neg (show userRecipient ≠ selfRecipient by decide), if_neg absent, if_pos rfl]
    split
    · next empty =>
      rw [List.isEmpty_iff] at empty
      rw [empty]
    · rfl
  rw [parseAtemOutput, remove_of_absent (by decide) is.turnEnd, split_eq (by decide),
    (splitOnce_eq_none (by decide)).mpr is.phaseEnd,
    List.foldlM_cons, added]
  rfl

/-- A structured text is accepted when it is made of phases whose calls are well formed and the whole of it parses. -/
theorem wholeText_eq_ok (structured : Structured text) {found : Heard} : wholeText outside text = .ok found ↔
    ∃ phases output, Phased text phases ∧ hearPhases outside 0 phases = .ok found ∧
      parseAtemOutput outside text = .ok output := by
  rw [wholeText, if_pos structured]
  constructor
  · intro is
    obtain ⟨result, heard_, is⟩ := bind_eq_ok_iff.mp is
    obtain ⟨output, parsed, same⟩ := bind_eq_ok_iff.mp is
    cases same
    obtain ⟨phases, phased⟩ := phased_of_hears heard_
    refine ⟨phases, output, phased, ?_, parsed⟩
    rw [← hears_of_phased phased, heard_]
    rfl
  · rintro ⟨phases, output, phased, heard_, parsed⟩
    rw [← hears_of_phased phased] at heard_
    cases result : hears (advance outside true (.between text) 0) with
    | error message =>
      rw [result] at heard_
      cases heard_
    | ok result' =>
      rw [result] at heard_
      cases heard_
      exact bind_eq_ok_iff.mpr ⟨_, rfl, bind_eq_ok_iff.mpr ⟨output, parsed, rfl⟩⟩

/-- What a text of phases parses as. -/
theorem heard_of_parsed {phases : List Phase} {found : Heard} {output : ParsedAtemOutput} (phased : Phased text phases)
    (heard_ : hearPhases outside 0 phases = .ok found) (parsed : parseAtemOutput outside text = .ok output)
    (noTurnEnd : ¬turnEnd <:+: text)
    (user : ∀ phase ∈ phases, phase.recipient = userRecipient → ¬callsOpen <:+: phase.body) : found = output.heard := by
  rw [parseAtemOutput, remove_of_absent (by decide) noTurnEnd] at parsed
  exact (heard_of_addAll user heard_ (addAll_of_parsed phased parsed)).symm

/-- What has been emitted of a structured text, at any time. -/
theorem read_of_feed {pieces : List Text} {events : List AtemStreamEvent} {parser : AtemStreamParser}
    (structured : Structured pieces.flatten)
    (fed : AtemStreamParser.feed outside .default pieces = .ok (events, parser)) :
    ∃ phases place, Read pieces.flatten phases place ∧ (heard events).content = userText phases ++ place.userText := by
  rcases feed_fed outside (fed_default outside) pieces with ⟨events', after, fed', is⟩ | ⟨message, fed', -⟩
  · rw [fed] at fed'
    cases fed'
    rw [List.nil_append, heard_nil_append] at is
    generalize heard events = found at is ⊢
    cases is with
    | unclear is => exact absurd structured (not_structured is)
    | plain is => exact absurd ((structured_iff is).mp structured) Bool.false_ne_true
    | @structured _ place emitted _ is stands settled goesOn =>
      obtain ⟨phases, read, same⟩ := read_of_hears settled
      exact ⟨phases, place, read, same⟩
  · rw [fed] at fed'
    cases fed'

/-- **Streaming and whole-text parsing.** What is heard is a function of the text, and no cut makes the
parser panic; a plain text is passed on as it is; a structured text is accepted when it is made of phases,
its calls are well formed and the whole of it parses, and then what is heard is what it parses as, unless a
mark of the turn's end or a block of calls to the user is in it; and what is emitted of a structured text is
at any time what its phases say to the user. -/
theorem streaming_agrees (outside : Outside Value) :
    (∀ pieces : List Text, (AtemStreamParser.stream outside pieces).map heard = fails (wholeText outside pieces.flatten)) ∧
    (∀ text, ¬Structured text → wholeText outside text = .ok ⟨text, [], []⟩ ∧
      (Unmarked text → parseAtemOutput outside text = .ok ⟨text, [], []⟩)) ∧
    (∀ text, Structured text → ∀ found, wholeText outside text = .ok found ↔
      ∃ phases output, Phased text phases ∧ hearPhases outside 0 phases = .ok found ∧
        parseAtemOutput outside text = .ok output) ∧
    (∀ text phases found output, Phased text phases → hearPhases outside 0 phases = .ok found →
      parseAtemOutput outside text = .ok output →
      found.content = userText phases ∧ found.reasoning = selfText phases ∧
      (¬turnEnd <:+: text → (∀ phase ∈ phases, phase.recipient = userRecipient → ¬callsOpen <:+: phase.body) →
        found = output.heard)) ∧
    (∀ pieces events parser, AtemStreamParser.feed outside .default pieces = .ok (events, parser) →
      Structured pieces.flatten →
      ∃ phases place, Read pieces.flatten phases place ∧ (heard events).content = userText phases ++ place.userText) := by
  refine ⟨stream_eq outside, fun text plain => ⟨?_, parse_unmarked⟩, fun text structured found =>
    wholeText_eq_ok structured, ?_, ?_⟩
  · rw [wholeText, if_neg plain]
  · intro text phases found output phased heard_ parsed
    obtain ⟨content, reasoning⟩ := texts_of_hearPhases heard_
    exact ⟨content, reasoning, heard_of_parsed phased heard_ parsed⟩
  · intro pieces events parser fed structured
    exact read_of_feed structured fed

/-- A plain text that has the mark of a phase's end is passed on with it, and is parsed without. -/
theorem plain_keeps_markers : ¬∀ (pieces : List Text) (found : Heard) (output : ParsedAtemOutput),
    (AtemStreamParser.stream texts pieces).map heard = .ok found → parseAtemOutput texts pieces.flatten = .ok output →
      found = output.heard := by
  intro agree
  have streamed : (AtemStreamParser.stream texts ["a<|eom|>b".toList]).map heard = .ok ⟨"a<|eom|>b".toList, [], []⟩ := by
    rw [stream_eq, wholeText, if_neg (by decide)]
    rfl
  have parsed : parseAtemOutput texts ["a<|eom|>b".toList].flatten = .ok ⟨"ab".toList, [], []⟩ := rfl
  have same := congrArg Heard.content (agree _ _ _ streamed parsed)
  exact absurd same (by decide)

end Muser.Atem
