import Muser.Reply.Filtering

/-! # Filtering a text in pieces

The filter of stop words is given a text piece by piece. How the text is cut into pieces should not be
seen in what is let through or in the stop word that is reported. It is seen where a stop word is whole
before another one that starts earlier, or that stands before it in the list and starts with it.
-/

namespace Muser.Reply

open Text

namespace StopFilter

/-! ## The boundary the filter goes back to -/

/-- Whether a byte offset stands between the characters of a text. -/
def isCharBoundary (text : Text) (offset : ℕ) : Bool := (List.range (text.length + 1)).any fun count =>
    size (text.take count) = offset

theorem isCharBoundary_iff {text : Text} {offset : ℕ} : isCharBoundary text offset = true ↔ ∃ front,
    front <+: text ∧ size front = offset := by
  simp only [isCharBoundary, List.any_eq_true, decide_eq_true_eq, List.mem_range]
  constructor
  · rintro ⟨count, -, is⟩
    exact ⟨_, List.take_prefix count text, is⟩
  · rintro ⟨front, is, same⟩
    refine ⟨front.length, Nat.lt_succ_of_le is.length_le, ?_⟩
    rw [← List.prefix_iff_eq_take.mp is, same]

/-- An offset is lowered until it stands between characters. -/
def backToBoundary (text : Text) : ℕ → ℕ
  | 0 => 0
  | safe + 1 => if isCharBoundary text (safe + 1) then safe + 1 else backToBoundary text safe

theorem takeBytes_longest {front text : Text} {count : ℕ} (begins : front <+: text) (fits : size front ≤ count) :
    front <+: takeBytes count text := by
  obtain ⟨rest, rfl⟩ := begins
  rw [← Nat.add_sub_of_le fits, takeBytes_append]
  exact List.prefix_append front _

/-- What may be said ends at the boundary that the filter goes back to. -/
theorem size_takeBytes (text : Text) (count : ℕ) : size (takeBytes count text) = backToBoundary text count := by
  induction count with
  | zero => exact Nat.le_zero.mp (size_takeBytes_le 0 text)
  | succ safe ih =>
    have fits := size_takeBytes_le (safe + 1) text
    rw [backToBoundary]
    split
    · next here =>
      obtain ⟨front, begins, is⟩ := isCharBoundary_iff.mp here
      obtain ⟨more, whole⟩ := takeBytes_longest begins is.le
      rw [← whole, size_append] at fits ⊢
      omega
    · next between =>
      have other : size (takeBytes (safe + 1) text) ≠ safe + 1 := fun is =>
        between (isCharBoundary_iff.mpr ⟨_, takeBytes_begins (safe + 1) text, is⟩)
      have first := takeBytes_longest (takeBytes_begins (safe + 1) text) (show _ ≤ safe by omega)
      have second := takeBytes_longest (takeBytes_begins safe text) ((size_takeBytes_le safe text).trans (Nat.le_succ safe))
      rw [← ih, first.eq_of_length_le second.length_le]

/-! ## The stop word that is found -/

variable {stops : List Text} {text front rest before stop : Text}

/-- A stop word in a text that starts before each other one, and that stands before those it starts with. -/
structure Leading (stops : List Text) (text before stop : Text) : Prop where
  nonempty : stop ≠ []
  here : before ++ stop <+: text
  earliest : ∀ other ∈ stops, other ≠ [] → ∀ before', before' ++ other <+: text → before.length ≤ before'.length
  listed : ∃ left right, stops = left ++ stop :: right ∧ ∀ other ∈ left, other ≠ [] → ¬before ++ other <+: text

theorem Leading.mem (leading : Leading stops text before stop) : stop ∈ stops := by
  obtain ⟨left, right, rfl, -⟩ := leading.listed
  exact List.mem_append_right left List.mem_cons_self

theorem Leading.heard (leading : Leading stops text before stop) : Heard stops text :=
  ⟨stop, leading.mem, leading.nonempty, (List.suffix_append before stop).isInfix.trans leading.here.isInfix⟩

/-- There is one at most. -/
theorem Leading.unique {before' stop' : Text} (leading : Leading stops text before stop)
    (other : Leading stops text before' stop') :
    before = before' ∧ stop = stop' := by
  have short := leading.earliest stop' other.mem other.nonempty before' other.here
  have short' := other.earliest stop leading.mem leading.nonempty before leading.here
  have front : before <+: text := (List.prefix_append before stop).trans leading.here
  have front' : before' <+: text := (List.prefix_append before' stop').trans other.here
  have same : before = before' := (List.prefix_of_prefix_length_le front front' short).eq_of_length (by omega)
  subst same
  refine ⟨rfl, ?_⟩
  obtain ⟨left, right, is, absent⟩ := leading.listed
  obtain ⟨left', right', is', absent'⟩ := other.listed
  rcases List.append_eq_append_iff.mp (is.symm.trans is') with ⟨between, rfl, tail⟩ | ⟨between, rfl, tail⟩
  · cases between with
    | nil => exact (List.cons.inj tail).1
    | cons first between =>
      cases (List.cons.inj tail).1
      exact absurd leading.here (absent' stop (List.mem_append_right left List.mem_cons_self) leading.nonempty)
  · cases between with
    | nil => exact (List.cons.inj tail).1.symm
    | cons first between =>
      cases (List.cons.inj tail).1
      exact absurd other.here (absent stop' (List.mem_append_right left' List.mem_cons_self) other.nonempty)

/-- What no stop word starts in may be put in front. -/
theorem Leading.append (apart : ∀ stop ∈ stops, stop ≠ [] → Apart stop front rest)
    (leading : Leading stops rest before stop) :
    Leading stops (front ++ rest) (front ++ before) stop := by
  have behind : ∀ other ∈ stops, other ≠ [] → ∀ before', before' ++ other <+: front ++ rest →
      ∃ between, before' = front ++ between ∧ between ++ other <+: rest := by
    intro other mem nonempty before' here
    have inside := (List.prefix_append before' other).trans here
    rcases List.prefix_or_prefix_of_prefix inside (List.prefix_append front rest) with ⟨right, is⟩ | ⟨between, is⟩
    · by_cases nothing : right = []
      · rw [nothing, List.append_nil] at is
        subst is
        exact ⟨[], (List.append_nil _).symm, (List.prefix_append_right_inj _).mp here⟩
      · subst is
        rw [List.append_assoc, List.prefix_append_right_inj] at here
        exact absurd here (apart other mem nonempty before' right rfl nothing)
    · subst is
      rw [List.append_assoc, List.prefix_append_right_inj] at here
      exact ⟨between, rfl, here⟩
  refine ⟨leading.nonempty, ?_, ?_, ?_⟩
  · rw [List.append_assoc, List.prefix_append_right_inj]
    exact leading.here
  · intro other mem nonempty before' here
    obtain ⟨between, rfl, inside⟩ := behind other mem nonempty before' here
    have := leading.earliest other mem nonempty between inside
    simp only [List.length_append]
    omega
  · obtain ⟨left, right, is, absent⟩ := leading.listed
    refine ⟨left, right, is, fun other mem nonempty here => absent other mem nonempty ?_⟩
    rwa [List.append_assoc, List.prefix_append_right_inj] at here

/-- A stop word is found no later than it stands anywhere. -/
theorem exists_place {word left : Text} (nonempty : word ≠ []) (here : left ++ word <+: text) :
    ∃ first after, splitOnce word text = some (first, after) ∧ size first ≤ size left ∧ first ++ word <+: text := by
  cases found : splitOnce word text with
  | none =>
    have inside : word <:+: text := (List.suffix_append left word).isInfix.trans here.isInfix
    exact absurd inside ((splitOnce_eq_none nonempty).mp found)
  | some both =>
    obtain ⟨first, after⟩ := both
    obtain ⟨same, clear⟩ := (splitOnce_eq_some nonempty).mp found
    refine ⟨first, after, rfl, ?_, ⟨after, same.symm⟩⟩
    have begins : first <+: text := ⟨word ++ after, by rw [same, List.append_assoc]⟩
    rcases List.prefix_or_prefix_of_prefix begins ((List.prefix_append left word).trans here) with ⟨between,
      is⟩ | ⟨right, is⟩
    · rw [← is, size_append]
      exact Nat.le_add_right _ _
    · by_cases nothing : right = []
      · rw [← is, nothing, List.append_nil]
      · refine absurd ?_ (clear left right is.symm nothing)
        rw [same, ← is, List.append_assoc, List.append_assoc, List.prefix_append_right_inj, ← List.append_assoc] at here
        rw [← prefix_append_iff (by rw [List.length_append]; exact Nat.le_add_left _ _)]
        exact here

theorem length_le_of_size_le {left right : Text} (isLeft : left <+: text) (isRight : right <+: text)
    (small : size left ≤ size right) :
    left.length ≤ right.length := by
  rcases List.prefix_or_prefix_of_prefix isLeft isRight with is | ⟨between, rfl⟩
  · exact is.length_le
  · rw [size_append] at small
    rw [size_eq_zero.mp (show size between = 0 by omega), List.append_nil]

/-- What is found is the leading stop word. -/
theorem firstStop_leading (heard : Heard stops text) :
    ∃ before stop, firstStop (stops.filter (· ≠ [])) text = some (before, stop) ∧ Leading stops text before stop := by
  obtain ⟨first, mem, nonempty, after, found⟩ := exists_splitOnce heard
  have some_ : (untilStop stops text, first) ∈ places (stops.filter (· ≠ [])) text := by
    rw [mem_places, List.mem_filter, decide_eq_true_eq]
    exact ⟨⟨mem, nonempty⟩, after, found⟩
  rcases firstStop_parts (stops.filter (· ≠ [])) text with ⟨-, none⟩ | ⟨⟨before, stop⟩, left, right, same,
    parts, less, least⟩
  · rw [none] at some_
    cases some_
  refine ⟨before, stop, same, ?_⟩
  have some_ : (before, stop) ∈ places (stops.filter (· ≠ [])) text := by
    rw [parts]
    exact List.mem_append_right left List.mem_cons_self
  rw [mem_places, List.mem_filter, decide_eq_true_eq] at some_
  obtain ⟨⟨-, nonempty⟩, after, found⟩ := some_
  have here : before ++ stop <+: text := ⟨after, ((splitOnce_eq_some nonempty).mp found).1.symm⟩
  refine ⟨nonempty, here, ?_, ?_⟩
  · intro other mem nonempty before' here'
    obtain ⟨first, after, found, early, -⟩ := exists_place nonempty here'
    have place : (first, other) ∈ places (stops.filter (· ≠ [])) text := by
      rw [mem_places, List.mem_filter, decide_eq_true_eq]
      exact ⟨⟨mem, nonempty⟩, after, found⟩
    exact length_le_of_size_le ((List.prefix_append _ _).trans here) ((List.prefix_append _ _).trans here')
      ((least _ place).trans early)
  · -- What stands before the stop word in the list was tried before it, and found later or not at all.
    obtain ⟨tried, back, split, rfl, backIs⟩ := List.filterMap_eq_append_iff.mp parts
    obtain ⟨absent, word, others, rfl, nowhere, is, -⟩ := List.filterMap_eq_cons_iff.mp backIs
    obtain ⟨both, -, same⟩ := Option.map_eq_some_iff.mp is
    cases same
    rw [← List.append_assoc] at split
    obtain ⟨listed, rest, rfl, listedIs, restIs⟩ := List.filter_eq_append_iff.mp split
    obtain ⟨empty, others', rfl, nothing, -, -⟩ := List.filter_eq_cons_iff.mp restIs
    refine ⟨listed ++ empty, others', (List.append_assoc _ _ _).symm, fun other mem nonempty here => ?_⟩
    rcases List.mem_append.mp mem with mem | mem
    · obtain ⟨first, after, found, early, -⟩ := exists_place nonempty here
      have mem : other ∈ tried ++ absent := by
        rw [← listedIs, List.mem_filter, decide_eq_true_eq]
        exact ⟨mem, nonempty⟩
      rcases List.mem_append.mp mem with mem | mem
      · have late : size both.1 < size first := less (first, other) (mem_places.mpr ⟨mem, after, found⟩)
        omega
      · have none := nowhere other mem
        rw [found] at none
        cases none
    · exact nothing other mem (decide_eq_true nonempty)

/-! ## A text in pieces -/

/-- What the filter lets through of the pieces of a text, fragment by fragment, and the stop word it reports. -/
structure Filtered where
  fragments : List Text
  matchedStop : Option Text
deriving DecidableEq

/-- A fragment that is let through if there is something in it. -/
def emit (fragment : Text) : List Text := if fragment = [] then [] else [fragment]

/-- The pieces of a text up to one with which there is a stop word, or all of them and what was held back. -/
def filterPieces (filter : StopFilter) : List Text → Filtered
  | [] => ⟨emit filter.finish.1, filter.matchedStop⟩
  | piece :: pieces =>
    let (safe, matched, filter) := filter.push piece
    if matched then ⟨emit safe, filter.matchedStop⟩
    else
      let others := filterPieces filter pieces
      ⟨emit safe ++ others.fragments, others.matchedStop⟩

def filterText (stops pieces : List Text) : Filtered := filterPieces (new stops) pieces

def Filtered.said (filtered : Filtered) : Text := filtered.fragments.flatten

@[simp] theorem flatten_emit (fragment : Text) : (emit fragment).flatten = fragment := by
  rw [emit]
  split
  · next nothing => rw [nothing, List.flatten_nil]
  · exact List.flatten_singleton

/-- The part of a text that was pushed when a stop word was in it. -/
def heardAt (stops : List Text) (whole : Text) : List Text → Option Text
  | [] => none
  | piece :: pieces => if Heard stops (whole ++ piece) then some (whole ++ piece) else heardAt stops (whole ++ piece) pieces

variable {whole said piece : Text} {filter : StopFilter} {pieces : List Text}

theorem heardAt_eq_some (found : heardAt stops whole pieces = some front) : Heard stops front ∧ front <+: whole ++
    pieces.flatten := by
  induction pieces generalizing whole with
  | nil => cases found
  | cons piece pieces ih =>
    rw [heardAt] at found
    rw [List.flatten_cons, ← List.append_assoc]
    split at found
    · next heard =>
      cases found
      exact ⟨heard, List.prefix_append _ _⟩
    · exact ih found

theorem heardAt_eq_none (silent : ¬Heard stops whole) (found : heardAt stops whole pieces = none) :
    ¬Heard stops (whole ++ pieces.flatten) := by
  induction pieces generalizing whole with
  | nil => rwa [List.flatten_nil, List.append_nil]
  | cons piece pieces ih =>
    rw [heardAt] at found
    rw [List.flatten_cons, ← List.append_assoc]
    split at found
    · cases found
    · next silent => exact ih silent found

theorem Filters.push_matchedStop (filters : Filters stops whole filter said) (silent : ¬Heard stops (whole ++ piece)) :
    (push filter piece).2.2.matchedStop = filter.matchedStop := by
  have none := firstStop_eq_none ((filters.heard_append piece).not.mp silent)
  rw [← filters.words] at none
  rw [push]
  dsimp only
  rw [none]

theorem Filters.push_leading (filters : Filters stops whole filter said) (heard : Heard stops (whole ++ piece)) :
    ∃ before stop, Leading stops (whole ++ piece) before stop ∧ (push filter piece).2.1 = true ∧ said ++
      (push filter piece).1 = before ∧
      (push filter piece).2.2.matchedStop = some stop := by
  obtain ⟨before, stop, found, leading⟩ := firstStop_leading ((filters.heard_append piece).mp heard)
  have behind := leading.append (filters.apart piece)
  rw [← List.append_assoc, filters.parts] at behind
  rw [← filters.words] at found
  refine ⟨said ++ before, stop, behind, ?_⟩
  rw [push]
  dsimp only
  rw [found]
  exact ⟨rfl, rfl, rfl⟩

/-- What becomes of the pieces of a text: all of it is let through, or what stands before the leading stop word. -/
theorem filterPieces_spec (filters : Filters stops whole filter said) (fresh : filter.matchedStop = none)
    (pieces : List Text) :
    match heardAt stops whole pieces with
    | none =>
      said ++ (filterPieces filter pieces).said = whole ++ pieces.flatten ∧ (filterPieces filter pieces).matchedStop = none
    | some front => ∃ before stop, Leading stops front before stop ∧ said ++ (filterPieces filter pieces).said = before ∧
        (filterPieces filter pieces).matchedStop = some stop := by
  induction pieces generalizing whole filter said with
  | nil =>
    refine ⟨?_, fresh⟩
    rw [filterPieces, Filtered.said, flatten_emit, List.flatten_nil, List.append_nil]
    exact filters.parts
  | cons piece pieces ih =>
    rw [heardAt, filterPieces]
    by_cases heard : Heard stops (whole ++ piece)
    · obtain ⟨before, stop, leading, matched, is, reported⟩ := filters.push_leading heard
      simp only [if_pos heard, matched, if_true, Filtered.said, flatten_emit]
      exact ⟨before, stop, leading, is, reported⟩
    · obtain ⟨matched, after⟩ := filters.push_silent heard
      have rest := ih after ((filters.push_matchedStop heard).trans fresh)
      simp only [if_neg heard, matched, Bool.false_eq_true, if_false, Filtered.said, List.flatten_append, flatten_emit]
      rw [List.flatten_cons, ← List.append_assoc, ← List.append_assoc]
      exact rest

/-- The same, from the start. -/
theorem filterText_spec (stops pieces : List Text) :
    match heardAt stops [] pieces with
    | none => (filterText stops pieces).said = pieces.flatten ∧ (filterText stops pieces).matchedStop = none
    | some front => Leading stops front (filterText stops pieces).said ((filterText stops pieces).matchedStop.getD []) ∧
        (filterText stops pieces).matchedStop.isSome := by
  have spec := filterPieces_spec (filters_new stops) rfl pieces
  simp only [List.nil_append] at spec
  split at spec
  · exact spec
  · obtain ⟨before, stop, leading, said, matched⟩ := spec
    rw [filterText, said, matched]
    exact ⟨leading, rfl⟩

theorem Leading.silent (leading : Leading stops text before stop) : ¬Heard stops before := by
  rintro ⟨other, mem, nonempty, left, right, is⟩
  have here : left ++ other <+: text :=
    (List.prefix_append (left ++ other) right).trans (is ▸ (List.prefix_append before stop).trans leading.here)
  have early := leading.earliest other mem nonempty left here
  have := List.length_pos_of_ne_nil nonempty
  rw [← is, List.length_append, List.length_append] at early
  omega

/-! ## Where the pieces make no difference -/

/-- How a text is cut into pieces is not seen in what the filter does. -/
structure SplitsAlike (stops : List Text) (text : Text) : Prop where
  same : ∀ pieces pieces' : List Text, pieces.flatten = text → pieces'.flatten = text →
    (filterText stops pieces).said = (filterText stops pieces').said ∧
      (filterText stops pieces).matchedStop = (filterText stops pieces').matchedStop
  begins : ∀ pieces : List Text, pieces.flatten = text → (filterText stops pieces).said <+: text
  silent : ∀ pieces : List Text, pieces.flatten = text → ¬Heard stops (filterText stops pieces).said
  whole : ∀ pieces : List Text, pieces.flatten = text → ¬Heard stops text → (filterText stops pieces).said = text
  cuts : ∀ pieces : List Text, pieces.flatten = text → ∀ count,
    isCharBoundary text (size ((filterText stops pieces).fragments.take count).flatten) = true

/-- A stop word in a text that ends before or with each other one, starts before or with each other one, and stands before
those it starts with in the list. -/
structure Foremost (stops : List Text) (text before stop : Text) : Prop extends Leading stops text before stop where
  ends : ∀ other ∈ stops, other ≠ [] → ∀ before', before' ++ other <+: text →
    (before ++ stop).length ≤ (before' ++ other).length

/-- A foremost stop word leads in every part of the text in which there is one. -/
theorem Foremost.leading (foremost : Foremost stops text before stop) (part : front <+: text) (heard : Heard stops front) :
    Leading stops front before stop := by
  obtain ⟨other, mem, nonempty, left, right, is⟩ := heard
  have first : left ++ other <+: front := ⟨right, is⟩
  have short := foremost.ends other mem nonempty left (first.trans part)
  refine ⟨foremost.nonempty, List.prefix_of_prefix_length_le foremost.here part (short.trans first.length_le), ?_, ?_⟩
  · intro other mem nonempty before' here
    exact foremost.earliest other mem nonempty before' (here.trans part)
  · obtain ⟨listed, others, is, absent⟩ := foremost.listed
    exact ⟨listed, others, is, fun other mem nonempty here => absent other mem nonempty (here.trans part)⟩

theorem heardAt_part (is : pieces.flatten = text) (found : heardAt stops [] pieces = some front) :
    Heard stops front ∧ front <+: text := by
  have part := heardAt_eq_some found
  rwa [List.nil_append, is] at part

theorem heardAt_silent (is : pieces.flatten = text) : heardAt stops [] pieces = none ↔ ¬Heard stops text := by
  constructor
  · intro found
    have silent := heardAt_eq_none not_heard_nil found
    rwa [List.nil_append, is] at silent
  · intro silent
    cases found : heardAt stops [] pieces with
    | none => rfl
    | some front =>
      obtain ⟨heard, rest, rfl⟩ := heardAt_part is found
      exact absurd (heard.append rest) silent

theorem filterText_silent (is : pieces.flatten = text) (silent : ¬Heard stops text) :
    (filterText stops pieces).said = text ∧ (filterText stops pieces).matchedStop = none := by
  have spec := filterText_spec stops pieces
  rw [(heardAt_silent is).mpr silent] at spec
  rwa [← is]

theorem filterText_heard (is : pieces.flatten = text) (heard : Heard stops text) :
    ∃ front stop, heardAt stops [] pieces = some front ∧ Heard stops front ∧ front <+: text ∧
      Leading stops front (filterText stops pieces).said stop ∧ (filterText stops pieces).matchedStop = some stop := by
  have spec := filterText_spec stops pieces
  cases found : heardAt stops [] pieces with
  | none => exact absurd heard ((heardAt_silent is).mp found)
  | some front =>
    rw [found] at spec
    obtain ⟨leading, reported⟩ := spec
    obtain ⟨stop, reported⟩ := Option.isSome_iff_exists.mp reported
    rw [reported] at leading
    obtain ⟨heard, part⟩ := heardAt_part is found
    exact ⟨front, stop, rfl, heard, part, leading, reported⟩

/-- Whatever the pieces are, a part of the text is let through in which there is no stop word. -/
theorem filterText_begins (is : pieces.flatten = text) :
    (filterText stops pieces).said <+: text ∧ ¬Heard stops (filterText stops pieces).said := by
  by_cases heard : Heard stops text
  · obtain ⟨front, stop, -, -, part, leading, -⟩ := filterText_heard is heard
    exact ⟨((List.prefix_append _ stop).trans leading.here).trans part, leading.silent⟩
  · rw [(filterText_silent is heard).1]
    exact ⟨List.prefix_rfl, heard⟩

theorem filterText_cuts (is : pieces.flatten = text) (count : ℕ) :
    isCharBoundary text (size ((filterText stops pieces).fragments.take count).flatten) = true := by
  have begins : (filterText stops pieces).said <+: text := (filterText_begins is).1
  refine isCharBoundary_iff.mpr ⟨_, List.IsPrefix.trans ?_ begins, rfl⟩
  conv_rhs => rw [Filtered.said, ← List.take_append_drop count (filterText stops pieces).fragments, List.flatten_append]
  exact List.prefix_append _ _

/-- The shortest part of a text with a stop word in it. -/
theorem exists_shortest (heard : Heard stops text) :
    ∃ count, Heard stops (text.take count) ∧ ∀ front, front <+: text → Heard stops front → count ≤ front.length := by
  classical
  have some_ : ∃ count, Heard stops (text.take count) := ⟨text.length, by rwa [List.take_length]⟩
  refine ⟨Nat.find some_, Nat.find_spec some_, fun front part heard => Nat.find_min' some_ ?_⟩
  rwa [← List.prefix_iff_eq_take.mp part]

/-- Pieces make no difference where there is no stop word in the text, or a foremost one. -/
theorem filtering_iff (stops : List Text) (text : Text) :
    SplitsAlike stops text ↔ ¬Heard stops text ∨ ∃ before stop, Foremost stops text before stop := by
  constructor
  · intro alike
    by_cases heard : Heard stops text
    · obtain ⟨count, heardFront, shortest⟩ := exists_shortest heard
      have whole : [text].flatten = text := List.flatten_singleton
      have parts : [text.take count, text.drop count].flatten = text := by
        rw [List.flatten_cons, List.flatten_singleton, List.take_append_drop]
      obtain ⟨front, stop, found, -, -, leading, reported⟩ := filterText_heard whole heard
      obtain ⟨front', stop', found', -, -, leading', reported'⟩ := filterText_heard parts heard
      rw [heardAt, List.nil_append, if_pos heard, Option.some.injEq] at found
      rw [heardAt, List.nil_append, if_pos heardFront, Option.some.injEq] at found'
      subst found found'
      obtain ⟨said, matched⟩ := alike.same _ _ whole parts
      rw [reported, reported', Option.some.injEq] at matched
      subst matched
      rw [← said] at leading'
      refine .inr ⟨_, stop, leading, fun other mem nonempty before' here => ?_⟩
      have heardThere : Heard stops (before' ++ other) := ⟨other, mem, nonempty, (List.suffix_append before' other).isInfix⟩
      exact (leading'.here.length_le.trans (List.length_take_le count text)).trans (shortest _ here heardThere)
    · exact .inl heard
  · intro settled
    refine ⟨?_, fun pieces is => (filterText_begins is).1, fun pieces is => (filterText_begins is).2,
      fun pieces is silent => (filterText_silent is silent).1, fun pieces is => filterText_cuts is⟩
    intro pieces pieces' is is'
    rcases settled with silent | ⟨before, stop, foremost⟩
    · obtain ⟨said, reported⟩ := filterText_silent is silent
      obtain ⟨said', reported'⟩ := filterText_silent is' silent
      exact ⟨said.trans said'.symm, reported.trans reported'.symm⟩
    · -- Whatever part was pushed by then, the foremost stop word leads in it.
      have reports : ∀ pieces : List Text, pieces.flatten = text →
          (filterText stops pieces).said = before ∧ (filterText stops pieces).matchedStop = some stop := by
        intro pieces is
        obtain ⟨front, found, -, heard, part, leading, reported⟩ := filterText_heard is foremost.heard
        obtain ⟨same, rfl⟩ := leading.unique (foremost.leading part heard)
        exact ⟨same, reported⟩
      exact ⟨(reports pieces is).1.trans (reports pieces' is').1.symm,
        (reports pieces is).2.trans (reports pieces' is').2.symm⟩

/-- A stop word that is whole before one that starts earlier is reported where a piece ends behind it. -/
theorem split_shows_in_filter : ¬SplitsAlike ["abcd".toList, "bc".toList] "abcd".toList := by
  intro alike
  have same := alike.same ["abcd".toList] ["abc".toList, "d".toList] rfl rfl
  revert same
  decide

end StopFilter

end Muser.Reply
