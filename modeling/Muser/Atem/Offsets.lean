import Muser.Atem.Growing

/-! # The parser's offsets

Every offset of the parser lies between two characters, and the loop over the phases does what a parser
does that has the parts of the text.
-/

namespace Muser.Atem

open Text

theorem startsWith_eq (text pattern : Text) : startsWith text pattern = (pattern.isPrefixOf? text).isSome := by
  rw [Bool.eq_iff_iff, startsWith, List.isPrefixOf_iff_prefix]
  constructor
  · rintro ⟨rest, same⟩
    rw [isPrefixOf?_eq_some.mpr same.symm]
    rfl
  · intro found
    obtain ⟨rest, same⟩ := Option.isSome_iff_exists.mp found
    exact ⟨rest, (isPrefixOf?_eq_some.mp same).symm⟩

/-- An answer of the code that is not a panic. -/
theorem part_some (text : Text) : part (some text) = .ok text := rfl

theorem header_eq (finishing : Bool) (done rest : Text) :
    header finishing (done ++ rest) (size done) = fails ((opening finishing rest).map
      (Option.map fun both => (both.1, size (done ++ rest) - size both.2))) := by
  obtain ⟨start, left, is, marked, whole⟩ : ∃ start left,
    (if startsWith rest startMarker then size done + startMarker.size else size done) =
      size (done ++ start) ∧ (startMarker.isPrefixOf? rest).getD rest = left ∧ rest = start ++ left := by
    rw [startsWith_eq]
    cases marked : startMarker.isPrefixOf? rest with
    | none => exact ⟨[], rest, by rw [List.append_nil]; rfl, rfl, rfl⟩
    | some left => exact ⟨startMarker, left, by rw [size_append]; rfl, rfl, isPrefixOf?_eq_some.mp marked⟩
  have raw : done ++ rest = (done ++ start) ++ left := by rw [whole, List.append_assoc]
  rw [header, opening, sliceFrom_append, part_some]
  simp only [bind, Except.bind, is, marked]
  split
  · rfl
  · rw [raw, sliceFrom_append, part_some]
    simp only [startsWith_eq]
    cases named : recipientMarker.isPrefixOf? left with
    | some text =>
      rw [isPrefixOf?_eq_some] at named
      have named' : done ++ start ++ left = done ++ start ++ recipientMarker ++ text := by rw [named, ← List.append_assoc]
      simp only [Option.isSome_some, if_true, named', ← size_append, sliceFrom_append, part_some, find]
      cases found : splitOnce messageMarker text with
      | none =>
        cases finishing with
        | false => rfl
        | true => rfl
      | some both =>
        obtain ⟨name, body⟩ := both
        have same := ((splitOnce_eq_some (by decide)).mp found).1
        simp only [Option.map_some]
        rw [same, List.append_assoc name, slice_append, part_some]
        dsimp only
        cases empty : (trim name).isEmpty with
        | true => rfl
        | false =>
          simp only [Bool.false_eq_true, if_false]
          show Except.ok _ = Except.ok _
          simp only [size_append, Option.map_some]
          congr 3
          omega
    | none =>
      simp only [Option.isSome_none, Bool.false_eq_true, if_false]
      cases messaged : messageMarker.isPrefixOf? left with
      | some body =>
        rw [isPrefixOf?_eq_some] at messaged
        simp only [Option.isSome_some, if_true]
        show Except.ok _ = Except.ok _
        rw [messaged]
        simp only [size_append, Option.map_some]
        congr 3
        omega
      | none =>
        cases finishing with
        | false => rfl
        | true => rfl

/-- How a parser of a structured text stands at a place. -/
inductive Stands (raw : Text) : AtemStreamParser → Place → ℕ → Prop
  | between {done rest : Text} {emitted : ℕ} (whole : raw = done ++ rest) :
    Stands raw ⟨raw, some true, size done, 0, none, emitted⟩ (.between rest) emitted
  | within {before recipient body : Text} {cursor emitted said : ℕ} (whole : raw = before ++ messageMarker ++ body)
      (fits : said ≤ body.length) :
    Stands raw ⟨raw, some true, cursor, 0,
      some ⟨recipient, size raw - size body, size raw - size body + size (body.take said)⟩, emitted⟩
      (.within recipient body said) emitted

/-- What is emitted of a phase. -/
theorem emit_eq {before body : Text} {said safe : ℕ} (stop : Option ℕ) {finishing : Bool} (recipient : Text)
    (fits : said ≤ body.length)
    (fits' : safe ≤ body.length) (is : stop.getD (if finishing then size (before ++ body) else
      size (before ++ body) - markerSuffixLen (before ++ body) phaseEnd) = size before + size (body.take safe)) :
    AtemActivePhase.emit ⟨recipient, size before, size before + size (body.take said)⟩ finishing (before ++ body) stop =
      .ok (speak recipient ((body.take safe).drop said),
        ⟨recipient, size before, size before + size (body.take (if spoken recipient then max said safe else said))⟩) := by
  rw [AtemActivePhase.emit, speak]
  by_cases speaks : spoken recipient
  · simp only [speaks, if_true, is, Bool.true_and]
    by_cases less : said < safe
    · have parts : before ++ body = (before ++ body.take said) ++ ((body.take safe).drop said ++ body.drop safe) := by
        rw [List.append_assoc, List.append_cancel_left_eq]
        conv_lhs => rw [← List.take_append_drop safe body, ← List.take_append_drop said (body.take safe),
          List.take_take, min_eq_left (le_of_lt less)]
        rw [List.append_assoc]
      have stops : size before + size (body.take safe) = size (before ++ body.take said) +
          size ((body.take safe).drop said) := by
        rw [size_append, Nat.add_assoc, ← size_append (body.take said)]
        conv_lhs => rw [← List.take_append_drop said (body.take safe), List.take_take, min_eq_left (le_of_lt less)]
      have some_ : (body.take safe).drop said ≠ [] := by
        rw [ne_eq, List.drop_eq_nil_iff, List.length_take]
        lia
      rw [if_pos (Nat.add_lt_add_left ((size_take_lt_iff fits fits').mpr less) _), if_pos (by simpa using some_),
        ← size_append before (body.take said),
        stops, parts, slice_append, part_some, max_eq_right (le_of_lt less), ← stops]
      rfl
    · rw [if_neg (by rw [Nat.add_lt_add_iff_left, size_take_lt_iff fits fits']; exact less),
        max_eq_left (Nat.le_of_not_lt less)]
      rw [if_neg (by simp; lia)]
  · rw [if_neg speaks, if_neg speaks, if_neg (by simp [speaks])]

/-- What the parts say is what the code does with its offsets. -/
def Follows (raw : Text) (result : Except Stop (List AtemStreamEvent × AtemStreamParser)) :
    Except String (List AtemStreamEvent × Place × ℕ) → Prop
  | .error message => result = .error (.error message)
  | .ok found => ∃ parser, result = .ok (found.1, parser) ∧ Stands raw parser found.2.1 found.2.2

variable {Value : Type} (outside : Outside Value) {raw : Text} {parser : AtemStreamParser} {place : Place}
  {emitted said : ℕ} {finishing : Bool}
  {recipient body : Text}

theorem Stands.raw_eq (is : Stands raw parser place emitted) : parser.raw = raw := by
  cases is with
  | between _ => rfl
  | within _ _ => rfl

theorem Stands.emitted_eq (is : Stands raw parser place emitted) : parser.toolCallsEmitted = emitted := by
  cases is with
  | between _ => rfl
  | within _ _ => rfl

theorem Stands.structured_eq (is : Stands raw parser place emitted) : parser.structured = some true ∧
    parser.plainEmitted = 0 := by
  cases is with
  | between _ => exact ⟨rfl, rfl⟩
  | within _ _ => exact ⟨rfl, rfl⟩

theorem Stands.done_iff (is : Stands raw parser place emitted) :
    (parser.active.isNone && parser.cursor == parser.raw.size) = true ↔ place = .between [] := by
  cases is with
  | @between done rest _ whole =>
    simp only [Option.isNone_none, Bool.true_and, beq_iff_eq, whole, size_append, Place.between.injEq, ← size_eq_zero]
    lia
  | within _ _ => simp

/-- The phase that the parser is in, or comes into, with its offsets. -/
theorem Stands.install_eq (is : Stands raw parser place emitted) (busy : place ≠ .between []) (finishing : Bool) :
    parser.install finishing =
      fails ((place.enter finishing).map (Option.map fun found =>
        (⟨found.1, size raw - size found.2.1, size raw - size found.2.1 + size (found.2.1.take found.2.2)⟩ :
          AtemActivePhase))) := by
  cases is with
  | within whole fits => rfl
  | @between done rest _ whole =>
    have nonempty : rest ≠ [] := by
      rintro rfl
      exact busy rfl
    rw [enter_of_nonempty nonempty, AtemStreamParser.install]
    dsimp only
    conv_lhs => rw [whole, header_eq]
    rw [← whole]
    cases opening finishing rest with
    | error message => rfl
    | ok found =>
      cases found with
      | none => rfl
      | some both => rfl

theorem Stands.splits (is : Stands raw parser place emitted)
    (entered : place.enter finishing = .ok (some (recipient, body, said))) :
    ∃ before, raw = before ++ messageMarker ++ body ∧ said ≤ body.length := by
  cases is with
  | within whole fits =>
    cases entered
    exact ⟨_, whole, fits⟩
  | @between done rest _ whole =>
    obtain ⟨opened, rfl⟩ := enter_between entered
    obtain ⟨before, same⟩ := (opening_some opened).1.exists_before
    exact ⟨done ++ before, by rw [whole, same]; simp only [List.append_assoc], Nat.zero_le _⟩

theorem toolCalls_eq (phase : AtemActivePhase) (body : Text) :
    toolCalls outside phase (some body) = fails (callsOf outside phase.recipient body) := by
  rw [toolCalls, callsOf]
  split
  · rfl
  · show Except.bind (fails (parseAtemCalls outside body)) _ = fails (Except.bind (parseAtemCalls outside body) _)
    cases parseAtemCalls outside body with
    | error message => rfl
    | ok calls =>
      show Except.bind (fails (validateAtemRecipient outside phase.recipient calls)) _ =
        fails (Except.bind (validateAtemRecipient outside phase.recipient calls) _)
      cases validateAtemRecipient outside phase.recipient calls with
      | error message => rfl
      | ok done => rfl

/-- What is safe to emit of a phase that has not ended. -/
theorem safe_end (before : Text) (finishing : Bool) (body : Text) : ∃ safe, safe ≤ body.length ∧
    (safe = if finishing then body.length else body.length - markerSuffixLen body phaseEnd) ∧
    (if finishing then size (before ++ messageMarker ++ body) else
      size (before ++ messageMarker ++ body) - markerSuffixLen (before ++ messageMarker ++ body) phaseEnd) =
      size (before ++ messageMarker) + size (body.take safe) := by
  cases finishing with
  | true => exact ⟨body.length, le_rfl, rfl, by rw [if_pos rfl, List.take_length, size_append]⟩
  | false =>
    obtain ⟨tail, ends, length⟩ := markerSuffixLen_tail body phaseEnd (by decide) (by decide)
    obtain ⟨tail', ends', length'⟩ := markerSuffixLen_tail (before ++ messageMarker ++ body) phaseEnd (by decide) (by decide)
    have whole : before ++ messageMarker ++ body = before ++ messageMarker.dropLast ++ ['>'] ++ body := by
      rw [List.append_assoc before messageMarker.dropLast, show messageMarker.dropLast ++ ['>'] = messageMarker by decide]
    have same := ends'.length_unique (whole ▸ ends.append_left (before ++ messageMarker.dropLast) '>' (by decide))
    refine ⟨body.length - tail.length, Nat.sub_le _ _, by rw [length]; rfl, ?_⟩
    rw [if_neg Bool.false_ne_true, length', same, size_append _ body]
    have bytes : size body = size (body.take (body.length - tail.length)) + tail.length := by
      have ascii : Ascii tail := fun character mem => (by decide : Ascii phaseEnd) character (ends.starts.subset mem)
      conv_lhs => rw [← List.take_append_drop (body.length - tail.length) body, size_append]
      rw [← List.suffix_iff_eq_drop.mp ends.ends, (ascii_bytes ascii).2]
    lia

/-- The loop over the phases does what a parser does that has the parts of the text. -/
theorem drainPhases_follows (is : Stands raw parser place emitted) {count : ℕ} (enough : place.text.length < count) :
    Follows raw (drainPhases outside finishing count parser) (advance outside finishing place emitted) := by
  induction count generalizing parser place emitted with
  | zero => exact absurd enough (Nat.not_lt_zero _)
  | succ count ih =>
    rw [drainPhases]
    by_cases idle : place = .between []
    · rw [if_pos (is.done_iff.mpr idle), advance_of_none outside (by rw [idle]; rfl)]
      exact ⟨parser, rfl, is⟩
    · rw [if_neg (mt is.done_iff.mp idle)]
      simp only [is.install_eq idle]
      cases entered : place.enter finishing with
      | error message =>
        rw [advance_of_error outside entered]
        rfl
      | ok found =>
        cases found with
        | none =>
          rw [advance_of_none outside entered]
          exact ⟨parser, rfl, is⟩
        | some found =>
          obtain ⟨recipient, body, said⟩ := found
          obtain ⟨before, whole, fits⟩ := is.splits entered
          have offset : size raw - size body = size (before ++ messageMarker) := by
            rw [whole, size_append, Nat.add_sub_cancel]
          have rest : raw.sliceFrom (size (before ++ messageMarker)) = some body := by
            rw [whole]
            exact sliceFrom_append _ _
          show Follows raw (Except.bind (.ok (some _)) _) _
          simp only [Except.bind, is.raw_eq, is.emitted_eq, is.structured_eq.1, is.structured_eq.2, offset, rest,
            part_some, find]
          cases ended : splitOnce phaseEnd body with
          | none =>
            obtain ⟨safe, fits', is', stops⟩ := safe_end before finishing body
            rw [advance_of_open outside entered ended, ← is']
            have emits := emit_eq none recipient fits fits' (stops : Option.getD none _ = _)
            rw [← whole] at emits
            simp only [bind, Except.bind, ended, Option.map_none, emits, rest, toolCalls_eq]
            have stays : (if spoken recipient = true then max said safe else said) ≤ body.length := by
              split
              · exact max_le fits fits'
              · exact fits
            rw [← offset]
            cases finishing with
            | false => exact ⟨_, rfl, .within whole stays⟩
            | true =>
              simp only [if_true]
              cases callsOf outside recipient body with
              | error message => rfl
              | ok calls => exact ⟨_, rfl, .within whole stays⟩
          | some both =>
            obtain ⟨inside, after⟩ := both
            have same := ((splitOnce_eq_some (by decide)).mp ended).1
            have taken : body.take inside.length = inside := by
              rw [same, List.append_assoc, List.take_left]
            rw [advance_of_ended outside entered ended]
            have long : inside.length ≤ body.length := by
              rw [same, List.length_append, List.length_append]
              lia
            have stops : (some (size (before ++ messageMarker) + size inside)).getD (if finishing then
              size (before ++ messageMarker ++ body) else
                size (before ++ messageMarker ++ body) - markerSuffixLen (before ++ messageMarker ++ body) phaseEnd) =
                size (before ++ messageMarker) + size (body.take inside.length) := by
              rw [Option.getD_some, taken]
            have emits := emit_eq (some (size (before ++ messageMarker) + size inside)) recipient fits long stops
            rw [← whole, taken] at emits
            have inner : raw.slice (size (before ++ messageMarker)) (size (before ++ messageMarker) + size inside) =
                some inside := by
              rw [whole, same, List.append_assoc inside]
              exact slice_append _ _ _
            simp only [bind, Except.bind, ended, Option.map_some, emits, inner, toolCalls_eq]
            cases callsOf outside recipient inside with
            | error message => rfl
            | ok calls =>
              have whole' : raw = before ++ messageMarker ++ inside ++ phaseEnd ++ after := by
                rw [whole, same]
                simp only [List.append_assoc]
              have less := after_lt (by decide) ended
              have le := enter_le entered
              have later := ih (@Stands.between raw _ after (emitted + calls.length) whole')
                (show after.length < count by lia)
              simp only [size_append] at later ⊢
              simp only [fails, Except.mapError]
              cases further : advance outside finishing (.between after) (emitted + calls.length) with
              | error message =>
                rw [further] at later
                replace later : drainPhases outside finishing count _ = _ := later
                rw [later]
                rfl
              | ok found =>
                rw [further] at later
                obtain ⟨parser', drained, stands⟩ := later
                rw [drained]
                exact ⟨parser', rfl, stands⟩

end Muser.Atem
