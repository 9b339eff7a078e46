import Muser.Reply.Saying

/-! # What the filter of stop words lets through

The text of a reply is meant to end before the first stop word in it. The filter holds back as many
bytes as a stop word may still need, so no stop word starts in what it has let through.
-/

namespace Muser.Reply

open Text

/-! ## The text before a stop word -/

/-- Whether a stop word starts a text. -/
def Starts (stops : List Text) (text : Text) : Prop := ∃ stop ∈ stops, stop ≠ [] ∧ stop <+: text

/-- Whether a stop word is in a text. -/
def Heard (stops : List Text) (text : Text) : Prop := ∃ stop ∈ stops, stop ≠ [] ∧ stop <:+: text

instance (stops : List Text) (text : Text) : Decidable (Starts stops text) := List.decidableBEx _ stops

instance (stops : List Text) (text : Text) : Decidable (Heard stops text) := List.decidableBEx _ stops

/-- A text up to the first stop word in it. -/
def untilStop (stops : List Text) : Text → Text
  | [] => []
  | first :: rest => if Starts stops (first :: rest) then [] else first :: untilStop stops rest

variable {stops : List Text} {text front rest more before : Text}

theorem heard_cons {first : Char} : Heard stops (first :: text) ↔ Starts stops (first :: text) ∨ Heard stops text := by
  constructor
  · rintro ⟨stop, mem, nonempty, inside⟩
    rcases List.infix_cons_iff.mp inside with starts | inside
    · exact .inl ⟨stop, mem, nonempty, starts⟩
    · exact .inr ⟨stop, mem, nonempty, inside⟩
  · rintro (⟨stop, mem, nonempty, starts⟩ | ⟨stop, mem, nonempty, inside⟩)
    · exact ⟨stop, mem, nonempty, starts.isInfix⟩
    · exact ⟨stop, mem, nonempty, List.infix_cons inside⟩

theorem not_heard_nil : ¬Heard stops [] := by
  rintro ⟨stop, -, nonempty, inside⟩
  exact nonempty (List.eq_nil_of_infix_nil inside)

theorem Heard.append (heard : Heard stops text) (more : Text) : Heard stops (text ++ more) := by
  obtain ⟨stop, mem, nonempty, inside⟩ := heard
  exact ⟨stop, mem, nonempty, inside.trans (List.prefix_append text more).isInfix⟩

theorem untilStop_of_not_heard (silent : ¬Heard stops text) : untilStop stops text = text := by
  induction text with
  | nil => rfl
  | cons first text ih =>
    rw [heard_cons, not_or] at silent
    rw [untilStop, if_neg silent.1, ih silent.2]

/-- A front in which no stop word starts is said before what follows it. -/
theorem untilStop_front (apart : ∀ stop ∈ stops, stop ≠ [] → Apart stop front rest) :
    untilStop stops (front ++ rest) = front ++ untilStop stops rest ∧ (Heard stops (front ++ rest) ↔ Heard stops rest) := by
  induction front with
  | nil => exact ⟨rfl, Iff.rfl⟩
  | cons first front ih =>
    have here : ¬Starts stops (first :: (front ++ rest)) := by
      rintro ⟨stop, mem, nonempty, starts⟩
      exact apart stop mem nonempty [] (first :: front) rfl (List.cons_ne_nil _ _) starts
    have later : ∀ stop ∈ stops, stop ≠ [] → Apart stop front rest := by
      intro stop mem nonempty left right same
      exact apart stop mem nonempty (first :: left) right (congrArg (first :: ·) same)
    rw [List.cons_append, untilStop, if_neg here, heard_cons, or_iff_right here, (ih later).1, List.cons_append]
    exact ⟨rfl, (ih later).2⟩

/-- The text up to the first stop word is before each stop word. -/
theorem untilStop_prefix {stop after : Text} (mem : stop ∈ stops) (nonempty : stop ≠ [])
    (found : splitOnce stop text = some (before, after)) : untilStop stops text <+: before := by
  induction text generalizing before with
  | nil => exact List.nil_prefix
  | cons first text ih =>
    rw [untilStop]
    split
    · exact List.nil_prefix
    · next silent =>
      have other : ¬stop <+: first :: text := fun starts => silent ⟨stop, mem, nonempty, starts⟩
      rw [splitOnce, isPrefixOf?_eq_none.mpr other, Option.map_eq_some_iff] at found
      obtain ⟨⟨left, right⟩, found, same⟩ := found
      cases same
      exact List.cons_prefix_cons.mpr ⟨rfl, ih found⟩

/-- Where there is a stop word, one of them comes first. -/
theorem exists_splitOnce (heard : Heard stops text) :
    ∃ stop ∈ stops, stop ≠ [] ∧ ∃ after, splitOnce stop text = some (untilStop stops text, after) := by
  induction text with
  | nil => exact absurd heard not_heard_nil
  | cons first text ih =>
    rw [untilStop]
    split
    · next starts =>
      obtain ⟨stop, mem, nonempty, after, same⟩ := starts
      refine ⟨stop, mem, nonempty, after, ?_⟩
      rw [splitOnce, isPrefixOf?_eq_some.mpr same.symm]
    · next silent =>
      obtain ⟨stop, mem, nonempty, after, found⟩ := ih ((heard_cons.mp heard).resolve_left silent)
      refine ⟨stop, mem, nonempty, after, ?_⟩
      have other : ¬stop <+: first :: text := fun starts => silent ⟨stop, mem, nonempty, starts⟩
      rw [splitOnce, isPrefixOf?_eq_none.mpr other]
      dsimp only
      rw [found]
      rfl

/-! ## The filter of stop words -/

namespace StopFilter

/-- The shortest of some parts is kept, and of those that are as short the first. -/
theorem foldl_first {step : Option (Text × Text) → Text × Text → Option (Text × Text)}
    (keeps : ∀ earliest found, step (some earliest) found = if size found.1 < size earliest.1 then
      some found else some earliest)
    (found : List (Text × Text)) (best : Text × Text) :
    ∃ least left right, found.foldl step (some best) = some least ∧ best :: found = left ++ least :: right ∧
      (∀ other ∈ left, size least.1 < size other.1) ∧ ∀ other ∈ best :: found, size least.1 ≤ size other.1 := by
  induction found generalizing best with
  | nil =>
    refine ⟨best, [], [], rfl, rfl, nofun, fun other mem => ?_⟩
    rw [List.mem_singleton.mp mem]
  | cons first found ih =>
    rw [List.foldl_cons, keeps]
    split
    · next less =>
      obtain ⟨least, left, right, same, is, before, small⟩ := ih first
      have least_best := (small first List.mem_cons_self).trans_lt less
      refine ⟨least, best :: left, right, same, by rw [is, List.cons_append], fun other mem => ?_, fun other mem => ?_⟩
      · rcases List.mem_cons.mp mem with rfl | mem
        · exact least_best
        · exact before other mem
      · rcases List.mem_cons.mp mem with rfl | mem
        · exact least_best.le
        · exact small other mem
    · next notLess =>
      obtain ⟨least, left, right, same, is, before, small⟩ := ih best
      have least_first := (small best List.mem_cons_self).trans (Nat.le_of_not_lt notLess)
      have smallest : ∀ other ∈ best :: first :: found, size least.1 ≤ size other.1 := by
        intro other mem
        rcases List.mem_cons.mp mem with rfl | mem
        · exact small other List.mem_cons_self
        · rcases List.mem_cons.mp mem with rfl | mem
          · exact least_first
          · exact small other (List.mem_cons_of_mem _ mem)
      cases left with
      | nil =>
        obtain ⟨rfl, rfl⟩ := List.cons.inj is
        exact ⟨best, [], first :: found, same, rfl, nofun, smallest⟩
      | cons head left =>
        obtain ⟨rfl, rfl⟩ := List.cons.inj is
        have less := before best List.mem_cons_self
        refine ⟨least, best :: first :: left, right, same, rfl, fun other mem => ?_, smallest⟩
        rcases List.mem_cons.mp mem with rfl | mem
        · exact less
        · rcases List.mem_cons.mp mem with rfl | mem
          · exact less.trans_le (Nat.le_of_not_lt notLess)
          · exact before other (List.mem_cons_of_mem _ mem)

/-- What stands before the first place of each stop word. -/
def places (stops : List Text) (text : Text) : List (Text × Text) :=
  stops.filterMap fun stop => (splitOnce stop text).map fun both => (both.1, stop)

theorem mem_places {stop : Text} : (before, stop) ∈ places stops text ↔ stop ∈ stops ∧ ∃ after,
    splitOnce stop text = some (before, after) := by
  simp only [places, List.mem_filterMap, Option.map_eq_some_iff, Prod.mk.injEq, Prod.exists]
  constructor
  · rintro ⟨_, mem, _, after, found, rfl, rfl⟩
    exact ⟨mem, after, found⟩
  · rintro ⟨mem, after, found⟩
    exact ⟨stop, mem, before, after, found, rfl, rfl⟩

theorem firstStop_parts (stops : List Text) (text : Text) :
    firstStop stops text = none ∧ places stops text = [] ∨
      ∃ least left right, firstStop stops text = some least ∧ places stops text = left ++ least :: right ∧
        (∀ other ∈ left, size least.1 < size other.1) ∧ ∀ other ∈ places stops text, size least.1 ≤ size other.1 := by
  have unfolded : firstStop stops text = (places stops text).foldl _ none := rfl
  rw [unfolded]
  cases places stops text with
  | nil => exact .inl ⟨rfl, rfl⟩
  | cons first others => exact .inr (foldl_first (fun _ _ => rfl) others first)

theorem firstStop_spec (stops : List Text) (text : Text) :
    firstStop stops text = none ∧ places stops text = [] ∨
      ∃ least, firstStop stops text = some least ∧ least ∈ places stops text ∧ ∀ other ∈ places stops text,
        size least.1 ≤ size other.1 := by
  rcases firstStop_parts stops text with nowhere | ⟨least, left, right, found, parts, -, small⟩
  · exact .inl nowhere
  · exact .inr ⟨least, found, parts ▸ List.mem_append_right left List.mem_cons_self, small⟩

theorem places_eq_nil (silent : ¬Heard stops text) : places (stops.filter (· ≠ [])) text = [] := by
  rw [List.eq_nil_iff_forall_not_mem]
  rintro ⟨before, stop⟩ mem
  rw [mem_places, List.mem_filter, decide_eq_true_eq] at mem
  obtain ⟨⟨mem, nonempty⟩, after, found⟩ := mem
  have same := ((splitOnce_eq_some nonempty).mp found).1
  exact silent ⟨stop, mem, nonempty, before, after, same.symm⟩

theorem firstStop_eq_none (silent : ¬Heard stops text) : firstStop (stops.filter (· ≠ [])) text = none := by
  rcases firstStop_spec (stops.filter (· ≠ [])) text with ⟨none, -⟩ | ⟨least, -, mem, -⟩
  · exact none
  · rw [places_eq_nil silent] at mem
    cases mem

/-- The stop word that is found is the first one. -/
theorem firstStop_eq_some (heard : Heard stops text) :
    ∃ stop, firstStop (stops.filter (· ≠ [])) text = some (untilStop stops text, stop) := by
  obtain ⟨stop, mem, nonempty, after, found⟩ := exists_splitOnce heard
  have here : (untilStop stops text, stop) ∈ places (stops.filter (· ≠ [])) text := by
    rw [mem_places, List.mem_filter, decide_eq_true_eq]
    exact ⟨⟨mem, nonempty⟩, after, found⟩
  rcases firstStop_spec (stops.filter (· ≠ [])) text with ⟨-, none⟩ | ⟨⟨before, other⟩, same, mem, small⟩
  · rw [none] at here
    cases here
  · rw [mem_places, List.mem_filter, decide_eq_true_eq] at mem
    obtain ⟨⟨mem, nonempty⟩, after, found⟩ := mem
    obtain ⟨between, rfl⟩ := untilStop_prefix mem nonempty found
    have shortest : size (untilStop stops text ++ between) ≤ size (untilStop stops text) := small _ here
    rw [size_append] at shortest
    have nothing : between = [] := size_eq_zero.mp (by omega)
    exact ⟨other, by rw [same, nothing, List.append_nil]⟩

theorem takeBytes_begins (count : ℕ) (text : Text) : takeBytes count text <+: text := by
  induction text generalizing count with
  | nil => exact List.nil_prefix
  | cons first text ih =>
    rw [takeBytes]
    split
    · exact List.cons_prefix_cons.mpr ⟨rfl, ih _⟩
    · exact List.nil_prefix

theorem size_takeBytes_le (count : ℕ) (text : Text) : size (takeBytes count text) ≤ count := by
  induction text generalizing count with
  | nil => exact Nat.zero_le count
  | cons first text ih =>
    rw [takeBytes]
    split
    · next fits =>
      have rest := ih (count - (Utf8.encode first).length)
      rw [String.length_utf8EncodeChar] at fits rest
      rw [size_cons, String.length_utf8EncodeChar]
      omega
    · exact Nat.zero_le count

theorem takeBytes_append (front text : Text) (count : ℕ) : takeBytes (size front + count) (front ++ text) = front ++
    takeBytes count text := by
  induction front with
  | nil => rw [List.nil_append, size_nil, Nat.zero_add, List.nil_append]
  | cons first front ih =>
    rw [List.cons_append, takeBytes, size_cons, String.length_utf8EncodeChar, if_pos (by omega)]
    rw [show first.utf8Size + size front + count - first.utf8Size = size front + count by omega, ih, List.cons_append]

/-- How many bytes are held back, at most. -/
def held (stops : List Text) : ℕ := (new stops).holdBytes

theorem size_le_held {stop : Text} (mem : stop ∈ stops) : size stop ≤ held stops + 1 := by
  have : size stop ≤ (stops.map size).max?.getD 0 := by
    cases largest : (stops.map size).max? with
    | none =>
      rw [List.max?_eq_none_iff, List.map_eq_nil_iff] at largest
      rw [largest] at mem
      cases mem
    | some most => exact (List.max?_eq_some_iff.mp largest).2 _ (List.mem_map_of_mem mem)
  have bound : held stops = (stops.map size).max?.getD 0 - 1 := rfl
  omega

/-- A filter that was given a text without a stop word in it, and let some of it through. -/
structure Filters (stops : List Text) (whole : Text) (filter : StopFilter) (said : Text) : Prop where
  words : filter.stops = stops.filter (· ≠ [])
  hold : filter.holdBytes = held stops
  parts : said ++ filter.pending = whole
  through : said = takeBytes (size whole - held stops) whole
  silent : ¬Heard stops whole

theorem filters_new (stops : List Text) : Filters stops [] (new stops) [] := ⟨rfl, rfl, rfl, rfl, not_heard_nil⟩

variable {whole said piece : Text} {filter : StopFilter}

/-- What was let through is behind what is held back. -/
theorem Filters.held_le (filters : Filters stops whole filter said) (some_ : said ≠ []) :
    held stops ≤ size filter.pending := by
  have within : size said ≤ size whole - held stops := by
    conv_lhs => rw [filters.through]
    exact size_takeBytes_le _ _
  have parts : size said + size filter.pending = size whole := by rw [← size_append, filters.parts]
  have := size_eq_zero.not.mpr some_
  omega

/-- No stop word starts in what was let through. -/
theorem Filters.apart (filters : Filters stops whole filter said) (more : Text) :
    ∀ stop ∈ stops, stop ≠ [] → Apart stop said (filter.pending ++ more) := by
  intro stop mem nonempty left right same some_ starts
  refine filters.silent ⟨stop, mem, nonempty, ?_⟩
  have long : size stop ≤ size (right ++ filter.pending) := by
    have behind := filters.held_le (by rw [same]; exact List.append_ne_nil_of_right_ne_nil left some_)
    have small := size_le_held mem
    have := size_eq_zero.not.mpr some_
    rw [size_append]
    omega
  rw [← List.append_assoc] at starts
  have inside : stop <+: right ++ filter.pending := by
    rcases List.prefix_or_prefix_of_prefix starts (List.prefix_append _ _) with is | ⟨between, is⟩
    · exact is
    · rw [← is, size_append] at long
      rw [← is, size_eq_zero.mp (show size between = 0 by omega), List.append_nil]
  rw [← filters.parts, same, List.append_assoc]
  exact inside.isInfix.trans (List.suffix_append left _).isInfix

theorem Filters.untilStop_append (filters : Filters stops whole filter said) (more : Text) :
    untilStop stops (whole ++ more) = said ++ untilStop stops (filter.pending ++ more) := by
  rw [← filters.parts, List.append_assoc]
  exact (untilStop_front (filters.apart more)).1

theorem Filters.heard_append (filters : Filters stops whole filter said) (more : Text) :
    Heard stops (whole ++ more) ↔ Heard stops (filter.pending ++ more) := by
  rw [← filters.parts, List.append_assoc]
  exact (untilStop_front (filters.apart more)).2

/-- A piece without a stop word goes on. -/
theorem Filters.push_silent (filters : Filters stops whole filter said) (silent : ¬Heard stops (whole ++ piece)) :
    (push filter piece).2.1 = false ∧ Filters stops (whole ++ piece)
    (push filter piece).2.2 (said ++ (push filter piece).1) := by
  have none := firstStop_eq_none ((filters.heard_append piece).not.mp silent)
  rw [← filters.words] at none
  rw [push]
  dsimp only
  rw [none]
  refine ⟨rfl, filters.words, filters.hold, ?_, ?_, silent⟩
  · dsimp only
    rw [List.append_assoc, List.prefix_iff_eq_append.mp (takeBytes_begins _ _), ← List.append_assoc, filters.parts]
  · dsimp only
    have parts : said ++ (filter.pending ++ piece) = whole ++ piece := by rw [← List.append_assoc, filters.parts]
    rw [← parts, filters.hold]
    by_cases nothing : said = []
    · rw [nothing, List.nil_append, List.nil_append]
    · have behind := filters.held_le nothing
      have enough : held stops ≤ size (filter.pending ++ piece) := by
        rw [size_append]
        omega
      rw [size_append said, Nat.add_sub_assoc enough, takeBytes_append]

/-- With the first stop word, what stands before it is said. -/
theorem Filters.push_heard (filters : Filters stops whole filter said) (heard : Heard stops (whole ++ piece)) :
    (push filter piece).2.1 = true ∧ said ++ (push filter piece).1 = untilStop stops (whole ++ piece) := by
  obtain ⟨stop, found⟩ := firstStop_eq_some ((filters.heard_append piece).mp heard)
  rw [← filters.words] at found
  rw [push, filters.untilStop_append]
  dsimp only
  rw [found]
  exact ⟨rfl, rfl⟩

end StopFilter

end Muser.Reply
