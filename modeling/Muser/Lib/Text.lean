import Muser.Lib.Utf8
import Mathlib.Data.List.Infix
import Mathlib.Tactic.Common

/-! # Texts, their parts and their offsets

A text is a list of characters and an offset into it counts the bytes of their encoding, so that a part
of a text is there only for offsets between two characters. Searches return the parts: what stands
before the first occurrence of a pattern, and what comes after it.
-/

namespace Muser

section Search

variable {α : Type} {pattern text before after more left right : List α}

/-- No occurrence of the pattern starts in a part that stands before one. -/
def Clear (pattern before : List α) : Prop := ∀ left right, before = left ++ right → right ≠ [] →
    ¬pattern <+: right ++ pattern

/-- A prefix that is long enough is one whatever follows. -/
theorem prefix_append_iff (long : pattern.length ≤ text.length) : pattern <+: text ++ more ↔ pattern <+: text :=
  ⟨fun is => List.prefix_of_prefix_length_le is (List.prefix_append text more) long,
    fun is => is.trans (List.prefix_append text more)⟩

/-- A pattern starts a text only if it agrees with what the text starts with. -/
theorem not_prefix_append {other : List α} (one : ¬pattern <+: other) (two : ¬other <+: pattern) :
    ¬pattern <+: other ++ more := fun is =>
  (List.prefix_or_prefix_of_prefix is (List.prefix_append other more)).elim one two

/-- Whether a pattern starts a text is settled once the text does not start the pattern. -/
theorem prefix_append_iff_of_not (other : ¬text <+: pattern) : pattern <+: text ++ more ↔ pattern <+: text :=
  ⟨fun is => (List.prefix_or_prefix_of_prefix is (List.prefix_append text more)).resolve_right other,
    fun is => is.trans (List.prefix_append text more)⟩

variable {rest : List α} {front : List α}

/-- A part without the mark starts a text up to the mark, or not at all. -/
theorem prefix_field_iff {mark : α} (clean : mark ∉ left) : left <+: right ++ mark :: rest ↔ left <+: right := by
  induction left generalizing right with
  | nil => exact iff_of_true List.nil_prefix List.nil_prefix
  | cons first left ih =>
    obtain ⟨other, clean⟩ := not_or.mp (List.mem_cons.not.mp clean)
    cases right with
    | nil =>
      rw [List.nil_append, List.cons_prefix_cons]
      refine iff_of_false (fun is => other is.1.symm) (fun is => ?_)
      exact absurd (List.prefix_nil.mp is) (List.cons_ne_nil _ _)
    | cons second right => rw [List.cons_append, List.cons_prefix_cons, List.cons_prefix_cons, ih clean]

/-- Parts that end with the mark start one another only if they are the same. -/
theorem field_prefix_iff {mark : α} (clean : mark ∉ left) (clean' : mark ∉ right) :
    left ++ mark :: more <+: right ++ mark :: rest ↔ left = right ∧ more <+: rest := by
  induction left generalizing right with
  | nil =>
    cases right with
    | nil => rw [List.nil_append, List.nil_append, List.cons_prefix_cons, eq_self, eq_self]
    | cons second right =>
      rw [List.nil_append, List.cons_append, List.cons_prefix_cons]
      refine iff_of_false (fun is => clean' (is.1 ▸ List.mem_cons_self)) (fun is => ?_)
      exact absurd is.1.symm (List.cons_ne_nil _ _)
  | cons first left ih =>
    obtain ⟨other, clean⟩ := not_or.mp (List.mem_cons.not.mp clean)
    cases right with
    | nil =>
      rw [List.nil_append, List.cons_append, List.cons_prefix_cons]
      refine iff_of_false (fun is => other is.1.symm) (fun is => ?_)
      exact absurd is.1 (List.cons_ne_nil _ _)
    | cons second right =>
      rw [List.cons_append, List.cons_append, List.cons_prefix_cons, List.cons.injEq,
        ih clean (not_or.mp (List.mem_cons.not.mp clean')).2, and_assoc]

theorem clear_nil (pattern : List α) : Clear pattern [] := by
  rintro left right same nonempty
  rw [eq_comm, List.append_eq_nil_iff] at same
  exact absurd same.2 nonempty

theorem clear_cons {first : α} : Clear pattern (first :: before) ↔ ¬pattern <+: first :: before ++ pattern ∧
    Clear pattern before := by
  constructor
  · intro clear
    refine ⟨clear [] _ rfl (List.cons_ne_nil _ _), fun left right same => clear (first :: left) right ?_⟩
    rw [same, List.cons_append]
  · rintro ⟨here, later⟩ left right same nonempty
    cases left with
    | nil =>
      rw [List.nil_append] at same
      rw [← same]
      exact here
    | cons other left =>
      rw [List.cons_append, List.cons.injEq] at same
      exact later left right same.2 nonempty

/-- No occurrence of the pattern starts in the front of a text. -/
def Apart (pattern front rest : List α) : Prop := ∀ left right, front = left ++ right → right ≠ [] →
    ¬pattern <+: right ++ rest

theorem apart_append {front front' rest : List α} (is : Apart pattern front (front' ++ rest))
    (is' : Apart pattern front' rest) :
    Apart pattern (front ++ front') rest := by
  intro left right same nonempty
  rcases List.append_eq_append_iff.mp same with ⟨between, rfl, rfl⟩ | ⟨between, rfl, rfl⟩
  · exact is' between right rfl nonempty
  · by_cases none : between = []
    · subst none
      exact is' [] _ rfl nonempty
    · rw [List.append_assoc]
      exact is left between rfl none

/-- A front that disagrees with the pattern from each of its places. -/
theorem apart_of_tails (rest : List α)
    (differ : ∀ right ∈ front.tails, right = [] ∨ ¬pattern <+: right ∧ ¬right <+: pattern) :
    Apart pattern front rest := by
  rintro left right rfl nonempty
  obtain ⟨one, two⟩ := (differ right ((List.mem_tails _ _).mpr (List.suffix_append left right))).resolve_left nonempty
  exact not_prefix_append one two

/-- A front without the pattern, before a text that no end of the pattern starts. -/
theorem apart_of_absent {front rest : List α} (absent : ¬pattern <:+: front)
    (ends : ∀ tail ∈ pattern.tails, tail = [] ∨ tail = pattern ∨ ¬tail <+: rest) : Apart pattern front rest := by
  rintro left right rfl nonempty here
  rcases List.prefix_or_prefix_of_prefix here (List.prefix_append right rest) with within | ⟨tail, same⟩
  · exact absent (within.isInfix.trans (List.suffix_append left right).isInfix)
  · rcases ends tail ((List.mem_tails _ _).mpr ⟨right, same⟩) with none | whole | other
    · rw [none, List.append_nil] at same
      exact absent (same ▸ (List.suffix_append left right).isInfix)
    · rw [whole] at same
      exact nonempty (List.append_left_eq_self.mp same)
    · rw [← same, List.prefix_append_right_inj] at here
      exact other here

variable [DecidableEq α]

/-- The parts before and after the first occurrence of a pattern. -/
def splitOnce (pattern : List α) : List α → Option (List α × List α)
  | [] => if pattern = [] then some ([], []) else none
  | first :: rest =>
    match pattern.isPrefixOf? (first :: rest) with
    | some after => some ([], after)
    | none => (splitOnce pattern rest).map fun both => (first :: both.1, both.2)

theorem isPrefixOf?_eq_some : pattern.isPrefixOf? text = some rest ↔ text = pattern ++ rest := by
  induction pattern generalizing text with
  | nil => simp [List.isPrefixOf?, eq_comm]
  | cons first pattern ih =>
    cases text with
    | nil => simp [List.isPrefixOf?]
    | cons other text =>
      rw [List.isPrefixOf?]
      split
      · next same =>
        rw [eq_of_beq same, ih, List.cons_append, List.cons.injEq, and_iff_right rfl]
      · next differs =>
        simp only [reduceCtorEq, List.cons_append, List.cons.injEq, false_iff, not_and]
        rintro rfl
        exact absurd (beq_self_eq_true other) differs

theorem isPrefixOf?_eq_none : pattern.isPrefixOf? text = none ↔ ¬pattern <+: text := by
  constructor
  · rintro none ⟨rest, same⟩
    rw [isPrefixOf?_eq_some.mpr same.symm] at none
    cases none
  · intro absent
    cases found : pattern.isPrefixOf? text with
    | none => rfl
    | some rest => exact absurd ⟨rest, (isPrefixOf?_eq_some.mp found).symm⟩ absent

/-- The first occurrence is where nothing before it is one. -/
theorem splitOnce_eq_some (nonempty : pattern ≠ []) :
    splitOnce pattern text = some (before, after) ↔ text = before ++ pattern ++ after ∧ Clear pattern before := by
  induction text generalizing before with
  | nil =>
    simp only [splitOnce, if_neg nonempty, reduceCtorEq, List.append_assoc, false_iff, not_and]
    intro same
    rw [eq_comm, List.append_eq_nil_iff, List.append_eq_nil_iff] at same
    exact absurd same.2.1 nonempty
  | cons first rest ih =>
    rw [splitOnce]
    split
    · next found here =>
      rw [isPrefixOf?_eq_some] at here
      constructor
      · intro same
        cases same
        exact ⟨by simpa using here, clear_nil pattern⟩
      · rintro ⟨same, clear⟩
        cases before with
        | nil =>
          rw [here, List.nil_append, List.append_cancel_left_eq] at same
          rw [same]
        | cons other before =>
          refine absurd ?_ (clear_cons.mp clear).1
          rw [← prefix_append_iff (by simp only [List.length_append, List.length_cons]; lia)]
          rw [← same, here]
          exact List.prefix_append pattern found
    · next absent =>
      rw [isPrefixOf?_eq_none] at absent
      simp only [Option.map_eq_some_iff, Prod.mk.injEq, Prod.exists]
      constructor
      · rintro ⟨left, right, found, rfl, rfl⟩
        obtain ⟨rfl, clear⟩ := ih.mp found
        refine ⟨rfl, clear_cons.mpr ⟨fun here => absent ?_, clear⟩⟩
        rw [← List.cons_append, ← List.cons_append]
        exact here.trans (List.prefix_append _ _)
      · rintro ⟨same, clear⟩
        cases before with
        | nil => exact absurd ⟨after, by simpa using same.symm⟩ absent
        | cons other before =>
          rw [List.cons_append, List.cons_append, List.cons.injEq] at same
          obtain ⟨rfl, same⟩ := same
          exact ⟨before, after, ih.mpr ⟨same, (clear_cons.mp clear).2⟩, rfl, rfl⟩

/-- A front in which no occurrence starts stays before the first one. -/
theorem splitOnce_front (apart : Apart pattern front text) :
    splitOnce pattern (front ++ text) = (splitOnce pattern text).map fun both => (front ++ both.1, both.2) := by
  induction front with
  | nil =>
    rw [List.nil_append]
    cases splitOnce pattern text with
    | none => rfl
    | some both => rfl
  | cons first front ih =>
    have here : ¬pattern <+: first :: (front ++ text) := apart [] (first :: front) rfl (List.cons_ne_nil _ _)
    rw [List.cons_append, splitOnce, isPrefixOf?_eq_none.mpr here]
    dsimp only
    rw [ih fun left right same => apart (first :: left) right (congrArg (first :: ·) same), Option.map_map]
    rfl

theorem splitOnce_eq_none (nonempty : pattern ≠ []) : splitOnce pattern text = none ↔ ¬pattern <:+: text := by
  constructor
  · intro none
    rintro ⟨left, right, same⟩
    induction left generalizing text with
    | nil =>
      cases text with
      | nil => simp [nonempty] at same
      | cons first rest =>
        rw [splitOnce] at none
        rw [isPrefixOf?_eq_some.mpr (by simpa using same.symm : first :: rest = pattern ++ right)] at none
        cases none
    | cons first left ih =>
      cases text with
      | nil => simp at same
      | cons other rest =>
        rw [splitOnce] at none
        split at none
        · cases none
        · rw [Option.map_eq_none_iff] at none
          simp only [List.cons_append, List.cons.injEq] at same
          exact ih none same.2
  · intro absent
    cases found : splitOnce pattern text with
    | none => rfl
    | some both => exact absurd ⟨both.1, both.2, ((splitOnce_eq_some nonempty).mp found).1.symm⟩ absent

/-- What is found is found in a longer text. -/
theorem splitOnce_append (nonempty : pattern ≠ []) (found : splitOnce pattern text = some (before, after)) :
    splitOnce pattern (text ++ more) = some (before, after ++ more) := by
  rw [splitOnce_eq_some nonempty] at found ⊢
  exact ⟨by rw [found.1, List.append_assoc], found.2⟩

/-- The parts between the occurrences of a pattern, for a bound on their number. -/
def splitUpTo (pattern : List α) : ℕ → List α → List (List α)
  | 0, text => [text]
  | count + 1, text =>
    match splitOnce pattern text with
    | none => [text]
    | some (before, after) => before :: splitUpTo pattern count after

/-- The parts between the occurrences of a pattern. -/
def split (pattern text : List α) : List (List α) := splitUpTo pattern text.length text

/-- The text without the occurrences of a pattern. -/
def remove (pattern text : List α) : List α := (split pattern text).flatten

theorem after_lt (nonempty : pattern ≠ []) (found : splitOnce pattern text = some (before, after)) :
    after.length < text.length := by
  rw [((splitOnce_eq_some nonempty).mp found).1, List.length_append, List.length_append]
  have := List.length_pos_of_ne_nil nonempty
  omega

theorem splitUpTo_enough (nonempty : pattern ≠ []) {count : ℕ} (enough : text.length ≤ count) :
    splitUpTo pattern count text = split pattern text := by
  suffices same : ∀ {count count' : ℕ} {text : List α}, text.length ≤ count → text.length ≤ count' →
      splitUpTo pattern count text = splitUpTo pattern count' text from same enough le_rfl
  intro count
  induction count with
  | zero =>
    intro count' text none _
    rw [List.eq_nil_of_length_eq_zero (Nat.le_zero.mp none)]
    cases count' with
    | zero => rfl
    | succ count' => rw [splitUpTo, splitUpTo, splitOnce, if_neg nonempty]
  | succ count ih =>
    intro count' text enough enough'
    cases count' with
    | zero =>
      rw [List.eq_nil_of_length_eq_zero (Nat.le_zero.mp enough')]
      rw [splitUpTo, splitUpTo, splitOnce, if_neg nonempty]
    | succ count' =>
      rw [splitUpTo, splitUpTo]
      split
      · rfl
      · next before after found =>
        have less := after_lt nonempty found
        exact congrArg (before :: ·) (ih (show after.length ≤ count by lia) (show after.length ≤ count' by lia))

theorem split_eq (nonempty : pattern ≠ []) : split pattern text =
    match splitOnce pattern text with
    | none => [text]
    | some (before, after) => before :: split pattern after := by
  rw [← splitUpTo_enough nonempty (Nat.le_succ text.length), splitUpTo]
  split
  · rfl
  · next before after found =>
    exact congrArg (before :: ·) (splitUpTo_enough nonempty (le_of_lt (after_lt nonempty found)))

theorem remove_of_absent (nonempty : pattern ≠ []) (absent : ¬pattern <:+: text) : remove pattern text = text := by
  rw [remove, split_eq nonempty, (splitOnce_eq_none nonempty).mpr absent]
  exact List.append_nil text

theorem remove_front (nonempty : pattern ≠ []) (apart : Apart pattern front text) :
    remove pattern (front ++ text) = front ++ remove pattern text := by
  rw [remove, remove, split_eq nonempty, split_eq nonempty, splitOnce_front apart]
  cases splitOnce pattern text with
  | none => simp
  | some both => simp

/-- The text without the occurrences of a pattern at its front, for a bound on their number. -/
def trimStartUpTo (pattern : List α) : ℕ → List α → List α
  | 0, text => text
  | count + 1, text =>
    match pattern.isPrefixOf? text with
    | none => text
    | some rest => trimStartUpTo pattern count rest

/-- The text without the occurrences of a pattern at its front. -/
def trimStartMatches (pattern text : List α) : List α := trimStartUpTo pattern text.length text

theorem trimStartUpTo_of_not (other : ¬pattern <+: text) (count : ℕ) : trimStartUpTo pattern count text = text := by
  cases count with
  | zero => rfl
  | succ count => rw [trimStartUpTo, isPrefixOf?_eq_none.mpr other]

theorem trimStartMatches_of_not (other : ¬pattern <+: text) : trimStartMatches pattern text = text :=
    trimStartUpTo_of_not other _

theorem trimStartMatches_once (nonempty : pattern ≠ []) (other : ¬pattern <+: text) :
    trimStartMatches pattern (pattern ++ text) = text := by
  rw [trimStartMatches, List.length_append]
  obtain ⟨count, is⟩ := Nat.exists_eq_add_of_lt (List.length_pos_of_ne_nil nonempty)
  rw [show pattern.length + text.length = (count + text.length) + 1 by lia, trimStartUpTo, isPrefixOf?_eq_some.mpr rfl]
  exact trimStartUpTo_of_not other _

end Search

abbrev Text := List Char

namespace Text

/-- The length of a text in bytes. -/
def size (text : Text) : ℕ := (Utf8.encodeAll text).length

/-- The text from an offset, which lies between two characters. -/
def sliceFrom : Text → ℕ → Option Text
  | text, 0 => some text
  | [], _ + 1 => none
  | first :: rest, offset + 1 => if offset + 1 < first.utf8Size then none else sliceFrom rest (offset + 1 - first.utf8Size)

/-- The text up to an offset, which lies between two characters. -/
def sliceTo : Text → ℕ → Option Text
  | _, 0 => some []
  | [], _ + 1 => none
  | first :: rest, offset + 1 =>
    if offset + 1 < first.utf8Size then none else (sliceTo rest (offset + 1 - first.utf8Size)).map (first :: ·)

/-- The text between two offsets. -/
def slice (text : Text) (start stop : ℕ) : Option Text :=
  if stop < start then none else (text.sliceFrom start).bind fun rest => rest.sliceTo (stop - start)

/-- The offset of the first occurrence of a pattern. -/
def find (text pattern : Text) : Option ℕ := (splitOnce pattern text).map fun both => size both.1

def startsWith (text pattern : Text) : Bool := pattern.isPrefixOf text

def includes (text pattern : Text) : Bool := (splitOnce pattern text).isSome

/-- White space, as Unicode has it. -/
def isWhitespace (character : Char) : Bool :=
  let value := character.toNat
  (9 ≤ value && value ≤ 13) || value == 0x20 || value == 0x85 || value == 0xA0 || value == 0x1680 ||
    (0x2000 ≤ value && value ≤ 0x200A) || value == 0x2028 || value == 0x2029 || value == 0x202F || value == 0x205F ||
      value == 0x3000

def trimStart (text : Text) : Text := text.dropWhile isWhitespace

def trim (text : Text) : Text := ((trimStart text).reverse.dropWhile isWhitespace).reverse

variable {text front rest pattern : Text}

@[simp] theorem size_nil : size [] = 0 := rfl

@[simp] theorem size_cons (first : Char) (rest : Text) : size (first :: rest) = first.utf8Size + size rest := by
  rw [size, Utf8.encodeAll_cons, List.length_append, String.length_utf8EncodeChar]
  rfl

@[simp] theorem size_append (front rest : Text) : size (front ++ rest) = size front + size rest := by
  rw [size, Utf8.encodeAll_append, List.length_append]
  rfl

theorem startsWith_iff : startsWith text pattern = true ↔ pattern <+: text := List.isPrefixOf_iff_prefix

theorem includes_iff (nonempty : pattern ≠ []) : includes text pattern = true ↔ pattern <:+: text := by
  rw [includes, Option.isSome_iff_ne_none, ne_eq, splitOnce_eq_none nonempty, not_not]

theorem trim_infix (text : Text) : trim text <:+: text := by
  have ends : (trimStart text).reverse.dropWhile isWhitespace <:+ (trimStart text).reverse := List.dropWhile_suffix _
  rw [← List.reverse_prefix, List.reverse_reverse] at ends
  exact ends.isInfix.trans (List.dropWhile_suffix _).isInfix

theorem trimStart_append (some_ : trimStart text ≠ []) (rest : Text) :
    trimStart (text ++ rest) = trimStart text ++ rest := by
  rw [trimStart, trimStart, List.dropWhile_append, if_neg (by rw [List.isEmpty_iff]; exact some_)]

theorem size_eq_zero : size text = 0 ↔ text = [] := by
  cases text with
  | nil => exact ⟨fun _ => rfl, fun _ => rfl⟩
  | cons first rest =>
    have := first.utf8Size_pos
    rw [size_cons]
    constructor
    · omega
    · nofun

/-- A longer beginning of a text has more bytes. -/
theorem size_take_lt_iff {count count' : ℕ} (within : count ≤ text.length) (within' : count' ≤ text.length) :
    size (text.take count) < size (text.take count') ↔ count < count' := by
  suffices less : ∀ {count count' : ℕ}, count ≤ count' → count' ≤ text.length →
      size (text.take count) ≤ size (text.take count') ∧
        (count < count' → size (text.take count) < size (text.take count')) by
    constructor
    · intro smaller
      by_contra above
      exact absurd (less (Nat.le_of_not_lt above) within).1 (by lia)
    · exact fun smaller => (less (le_of_lt smaller) within').2 smaller
  intro count count' le within
  have parts : text.take count' = text.take count ++ (text.take count').drop count := by
    conv_lhs => rw [← List.take_append_drop count (text.take count'), List.take_take, min_eq_left le]
  rw [parts, size_append]
  refine ⟨Nat.le_add_right _ _, fun smaller => Nat.lt_add_of_pos_right (Nat.pos_of_ne_zero fun none => ?_)⟩
  rw [size_eq_zero, List.drop_eq_nil_iff, List.length_take] at none
  lia

theorem sliceFrom_append (front rest : Text) : sliceFrom (front ++ rest) (size front) = some rest := by
  induction front with
  | nil => cases rest <;> rfl
  | cons first front ih =>
    rw [size_cons, List.cons_append]
    obtain ⟨size, is⟩ := Nat.exists_eq_add_of_lt first.utf8Size_pos
    rw [show first.utf8Size + Text.size front = (first.utf8Size + Text.size front - 1) +
      1 by lia, sliceFrom, if_neg (by lia)]
    rw [show first.utf8Size + Text.size front - 1 + 1 - first.utf8Size = Text.size front by lia]
    exact ih

theorem sliceTo_append (front rest : Text) : sliceTo (front ++ rest) (size front) = some front := by
  induction front with
  | nil => cases rest <;> rfl
  | cons first front ih =>
    rw [size_cons, List.cons_append]
    obtain ⟨size, is⟩ := Nat.exists_eq_add_of_lt first.utf8Size_pos
    rw [show first.utf8Size + Text.size front = (first.utf8Size + Text.size front - 1) + 1 by lia, sliceTo, if_neg (by lia)]
    rw [show first.utf8Size + Text.size front - 1 + 1 - first.utf8Size = Text.size front by lia, ih]
    rfl

theorem slice_append (front middle rest : Text) :
    slice (front ++ (middle ++ rest)) (size front) (size front + size middle) = some middle := by
  rw [slice, if_neg (by lia), sliceFrom_append, Option.bind_some,
    show size front + size middle - size front = size middle by lia]
  exact sliceTo_append middle rest

theorem append_of_sliceFrom {offset : ℕ} (is : sliceFrom text offset = some rest) :
    ∃ front, text = front ++ rest ∧ size front = offset := by
  induction text generalizing offset with
  | nil =>
    cases offset with
    | zero =>
      cases is
      exact ⟨[], rfl, rfl⟩
    | succ offset => cases is
  | cons first others ih =>
    cases offset with
    | zero =>
      cases is
      exact ⟨[], rfl, rfl⟩
    | succ offset =>
      rw [sliceFrom] at is
      split at is
      · cases is
      · obtain ⟨front, rfl, counted⟩ := ih is
        refine ⟨first :: front, rfl, ?_⟩
        rw [size_cons, counted]
        omega

theorem append_of_sliceTo {offset : ℕ} (is : sliceTo text offset = some front) :
    ∃ rest, text = front ++ rest ∧ size front = offset := by
  induction text generalizing offset front with
  | nil =>
    cases offset with
    | zero =>
      cases is
      exact ⟨[], rfl, rfl⟩
    | succ offset => cases is
  | cons first others ih =>
    cases offset with
    | zero =>
      cases is
      exact ⟨first :: others, rfl, rfl⟩
    | succ offset =>
      rw [sliceTo] at is
      split at is
      · cases is
      · obtain ⟨front, found, rfl⟩ := Option.map_eq_some_iff.mp is
        obtain ⟨rest, rfl, counted⟩ := ih found
        refine ⟨rest, rfl, ?_⟩
        rw [size_cons, counted]
        omega

/-- The part between two offsets, with what stands around it. -/
theorem append_of_slice {start stop : ℕ} {middle : Text} (is : slice text start stop = some middle) :
    ∃ front rest, text = front ++ (middle ++ rest) ∧ size front = start ∧ start + size middle = stop := by
  rw [slice] at is
  split at is
  · cases is
  · obtain ⟨later, from_, to_⟩ := Option.bind_eq_some_iff.mp is
    obtain ⟨front, rfl, counted⟩ := append_of_sliceFrom from_
    obtain ⟨rest, rfl, counted'⟩ := append_of_sliceTo to_
    exact ⟨front, rest, rfl, counted, by omega⟩

/-- A byte below 128 at the end of a text is its last character. -/
theorem last_byte {last : Char} {bytes : Bytes} {byte : UInt8}
    (is : Utf8.encodeAll text ++ Utf8.encodeAll [last] = bytes ++ [byte])
    (small : byte < 128) : Utf8.encodeAll [last] = [byte] ∧ Utf8.encodeAll text = bytes := by
  rw [show Utf8.encodeAll [last] = Utf8.encode last from List.append_nil _] at is ⊢
  have encoded := Utf8.encoded last
  generalize Utf8.encode last = code at encoded is
  have large : ∀ (front : Bytes) (final : UInt8), Utf8.encodeAll text ++ (front ++ [final]) = bytes ++ [byte] →
      0x80 ≤ final.toNat → False := by
    intro front final same high
    rw [← List.append_assoc] at same
    obtain ⟨-, same⟩ := List.append_inj' same rfl
    rw [List.singleton_inj.mp same] at high
    exact absurd (UInt8.lt_iff_toNat_lt.mp small) (by rw [show (128 : UInt8).toNat = 128 from rfl]; lia)
  cases encoded with
  | @one first =>
    obtain ⟨same, same'⟩ := List.append_inj' is rfl
    exact ⟨same', same⟩
  | @two first second _ _ _ final => exact (large [first] second is (by lia)).elim
  | @three first second third _ _ _ _ final => exact (large [first, second] third is (by lia)).elim
  | @four first second third fourth _ _ _ _ final => exact (large [first, second, third] fourth is (by lia)).elim

/-- Bytes below 128 at the end of a text are characters of it. -/
theorem exists_of_ascii_suffix {bytes tail : Bytes} (is : Utf8.encodeAll text = bytes ++ tail)
    (ascii : ∀ byte ∈ tail, byte < 128) :
    ∃ front rest, text = front ++ rest ∧ Utf8.encodeAll rest = tail := by
  induction text using List.reverseRecOn generalizing tail with
  | nil =>
    have none : bytes ++ tail = [] := is.symm
    exact ⟨[], [], rfl, (List.append_eq_nil_iff.mp none).2.symm⟩
  | append_singleton text last ih =>
    cases tail using List.reverseRecOn with
    | nil => exact ⟨text ++ [last], [], (List.append_nil _).symm, rfl⟩
    | append_singleton tail byte =>
      rw [Utf8.encodeAll_append, ← List.append_assoc] at is
      have small : byte < 128 := ascii byte (List.mem_append_right _ (List.mem_singleton_self byte))
      obtain ⟨own, is⟩ := last_byte is small
      obtain ⟨front, rest, rfl, same⟩ := ih is fun other mem => ascii other (List.mem_append_left _ mem)
      exact ⟨front, rest ++ [last], List.append_assoc _ _ _, by rw [Utf8.encodeAll_append, same, own]⟩

/-- Only characters of one byte. -/
def Ascii (text : Text) : Prop := ∀ character ∈ text, character.toNat < 128

instance (text : Text) : Decidable (Ascii text) := List.decidableBAll _ text

theorem encode_ascii {character : Char} (ascii : character.toNat < 128) :
    Utf8.encode character = [UInt8.ofNat character.toNat] ∧ UInt8.ofNat character.toNat < 128 := by
  constructor
  · rw [Utf8.encode_eq, if_pos (by lia)]
  · rw [UInt8.lt_iff_toNat_lt, UInt8.toNat_ofNat']
    show character.toNat % 256 < 128
    lia

theorem ascii_bytes (ascii : Ascii text) : (∀ byte ∈ Utf8.encodeAll text, byte < 128) ∧ size text = text.length := by
  induction text with
  | nil => exact ⟨nofun, rfl⟩
  | cons first rest ih =>
    obtain ⟨code, small⟩ := encode_ascii (ascii first (List.mem_cons_self ..))
    obtain ⟨bytes, length⟩ := ih fun character mem => ascii character (List.mem_cons_of_mem _ mem)
    constructor
    · rw [Utf8.encodeAll_cons, code]
      intro byte mem
      rcases List.mem_cons.mp mem with rfl | mem
      · exact small
      · exact bytes byte mem
    · have one : first.utf8Size = 1 := (String.length_utf8EncodeChar first).symm.trans (congrArg List.length code)
      rw [size_cons, length, one, List.length_cons, Nat.add_comm]

theorem encodeAll_ascii (ascii : Ascii text) : Utf8.encodeAll text = text.map fun character =>
    UInt8.ofNat character.toNat := by
  induction text with
  | nil => rfl
  | cons first rest ih =>
    rw [Utf8.encodeAll_cons, (encode_ascii (ascii first (List.mem_cons_self ..))).1,
      ih fun _ mem => ascii _ (List.mem_cons_of_mem _ mem)]
    rfl

/-- The longest end of a text that a marker may go on from. -/
structure TailOf (text marker tail : Text) : Prop where
  ends : tail <:+ text
  starts : tail <+: marker
  short : tail.length < marker.length
  longest : ∀ other, other <:+ text → other <+: marker → other.length < marker.length → other.length ≤ tail.length

theorem TailOf.length_unique {text marker tail tail' : Text} (is : TailOf text marker tail)
    (is' : TailOf text marker tail') :
    tail.length = tail'.length :=
  le_antisymm (is'.longest tail is.ends is.starts is.short) (is.longest tail' is'.ends is'.starts is'.short)

/-- Where a marker first ends in a longer text, it starts no earlier than the end it may go on from. -/
theorem TailOf.le_before {text marker tail more before after : Text} (is : TailOf text marker tail) (nonempty : marker ≠ [])
    (none : splitOnce marker text = none) (found : splitOnce marker (text ++ more) = some (before, after)) :
    text.length - tail.length ≤ before.length := by
  rw [splitOnce_eq_none nonempty] at none
  have same := ((splitOnce_eq_some nonempty).mp found).1
  by_cases within : text.length ≤ before.length
  · omega
  · have long : before <+: text := by
      refine List.prefix_of_prefix_length_le ?_ (List.prefix_append text more) (by omega)
      rw [same, List.append_assoc]
      exact List.prefix_append _ _
    obtain ⟨other, rfl⟩ := long
    rw [List.append_assoc, List.append_assoc, List.append_cancel_left_eq] at same
    have ends : other <+: marker := by
      rcases List.prefix_or_prefix_of_prefix (show other <+: marker ++
        after from ⟨more, same⟩) (List.prefix_append _ _) with ends | starts
      · exact ends
      · obtain ⟨rest, rfl⟩ := starts
        exact absurd ⟨before, rest, List.append_assoc _ _ _⟩ none
    have short : other.length < marker.length := by
      refine lt_of_le_of_ne ends.length_le fun whole => none ?_
      rw [ends.eq_of_length whole]
      exact ⟨before, [], List.append_nil _⟩
    have := is.longest other (List.suffix_append _ _) ends short
    rw [List.length_append]
    omega

/-- What is before the end that a marker may go on from is there in a longer text too. -/
theorem TailOf.le_append {text marker tail more tail' : Text} (is : TailOf text marker tail)
    (is' : TailOf (text ++ more) marker tail') :
    text.length - tail.length ≤ (text ++ more).length - tail'.length := by
  rw [List.length_append]
  by_cases within : tail'.length ≤ more.length
  · omega
  · obtain ⟨other, rfl⟩ : ∃ other, tail' = other ++ more := by
      rcases List.suffix_or_suffix_of_suffix is'.ends (List.suffix_append text more) with ends | ⟨other, ends⟩
      · exact absurd ends.length_le (by omega)
      · exact ⟨other, ends.symm⟩
    have ends : other <:+ text := by
      obtain ⟨front, same⟩ := is'.ends
      rw [← List.append_assoc] at same
      exact ⟨front, List.append_cancel_right same⟩
    have short := is'.short
    rw [List.length_append] at short ⊢
    have := is.longest other ends ((List.prefix_append _ _).trans is'.starts) (by omega)
    omega

/-- An end that a marker may go on from reaches no further back than a character that the marker does not go on from. -/
theorem TailOf.append_left {text marker tail : Text} (is : TailOf text marker tail) (front : Text) (last : Char)
    (absent : last ∉ marker.dropLast) :
    TailOf (front ++ [last] ++ text) marker tail := by
  refine ⟨is.ends.trans (List.suffix_append _ _), is.starts, is.short, fun other ends starts short => ?_⟩
  by_cases within : other.length ≤ text.length
  · exact is.longest other (List.suffix_of_suffix_length_le ends (List.suffix_append _ _) within) starts short
  · refine absurd ?_ absent
    rw [List.append_assoc] at ends
    obtain ⟨rest, same⟩ := List.suffix_of_suffix_length_le (List.suffix_append front ([last] ++ text)) ends
      (by rw [List.length_append, List.length_singleton]; omega)
    have mem : last ∈ other := by
      rw [← same]
      exact List.mem_append_right _ (List.mem_append_left _ (List.mem_singleton_self last))
    rw [List.dropLast_eq_take]
    exact ((List.prefix_take_iff.mpr ⟨starts, by omega⟩).subset) mem

/-- An end of a text, by its bytes. -/
theorem suffix_bytes_iff {marker : Text} (ascii : Ascii marker) {length : ℕ} (short : length < marker.length)
    (fits : length ≤ size text) :
    (Utf8.encodeAll text).drop (size text - length) <+: Utf8.encodeAll marker ↔ marker.take length <:+ text := by
  have asciiTake : Ascii (marker.take length) := fun character mem => ascii character (List.mem_of_mem_take mem)
  have taken : Utf8.encodeAll (marker.take length) = (Utf8.encodeAll marker).take length := by
    rw [encodeAll_ascii ascii, encodeAll_ascii asciiTake, List.map_take]
  constructor
  · intro is
    have exact_ : (Utf8.encodeAll text).drop (size text - length) = Utf8.encodeAll (marker.take length) := by
      rw [List.prefix_iff_eq_take.mp is, List.length_drop, taken]
      rw [show (Utf8.encodeAll text).length - (size text - length) =
        length by rw [show (Utf8.encodeAll text).length = size text from rfl]; omega]
    obtain ⟨front, rest, same, bytes⟩ :=
      exists_of_ascii_suffix (List.take_append_drop (size text - length) (Utf8.encodeAll text)).symm
      (by rw [exact_]; exact (ascii_bytes asciiTake).1)
    rw [exact_] at bytes
    rw [← Utf8.encodeAll_injective bytes, same]
    exact List.suffix_append front rest
  · rintro ⟨front, rfl⟩
    have long : size (marker.take length) = length := by
      rw [(ascii_bytes asciiTake).2, List.length_take]
      omega
    rw [Utf8.encodeAll_append, size_append, long, Nat.add_sub_cancel, size, List.drop_left, taken]
    exact List.take_prefix length _

/-- The largest number up to a limit at which a test holds. -/
theorem find?_down (test : ℕ → Bool) (limit : ℕ) :
    let largest := ((List.range' 1 limit).reverse.find? test).getD 0
    largest ≤ limit ∧ (largest = 0 ∨ test largest = true) ∧ ∀ other, largest < other → other ≤ limit →
      test other = false := by
  induction limit with
  | zero => exact ⟨le_rfl, .inl rfl, fun other above below => absurd below (by rw [not_le]; exact above)⟩
  | succ limit ih =>
    rw [List.range'_1_concat, List.reverse_append, List.reverse_singleton, List.singleton_append, List.find?_cons]
    cases holds : test (1 + limit) with
    | true =>
      exact ⟨by rw [Option.getD_some]; lia, .inr holds,
        fun other above below => absurd below (by rw [Option.getD_some] at above; lia)⟩
    | false =>
      obtain ⟨below, holds', above⟩ := ih
      refine ⟨le_trans below (Nat.le_succ limit), holds', fun other less within => ?_⟩
      rcases Nat.lt_or_eq_of_le within with within | rfl
      · exact above other less (by lia)
      · rwa [Nat.add_comm] at holds

end Text

end Muser
