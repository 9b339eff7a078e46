import Muser.Lib.Bytes
import Mathlib.Data.Finset.Image
import Mathlib.Data.List.Sort
import Mathlib.Tactic.Ring

/-! # Grammars

A grammar is a table of productions. Their terminals are classes of characters and tokens of a
vocabulary; a rule is known by its number.
-/

namespace Muser.Gbnf

inductive TokenValue where
  | id (value : UInt32)
  | piece (bytes : Bytes)
deriving DecidableEq

structure TokenTerminal where
  inverted : Bool
  value : TokenValue
deriving DecidableEq

def TokenTerminal.matches (terminal : TokenTerminal) (token : UInt32) (bytes : Bytes) : Bool :=
  let equal := match terminal.value with
    | .id expected => token == expected
    | .piece expected => bytes == expected
  equal != terminal.inverted

/-- A class of characters: those of some ranges, or all others. -/
structure CharSet where
  inverted : Bool
  ranges : List (ℕ × ℕ)
deriving DecidableEq

def CharSet.one (value : ℕ) : CharSet := ⟨false, [(value, value)]⟩

def CharSet.matches (chars : CharSet) (value : ℕ) : Bool :=
  let included := chars.ranges.any fun range => range.1 ≤ value && value ≤ range.2
  included != chars.inverted

namespace CharSet

/-- The order of pairs. -/
def Before (left right : ℕ × ℕ) : Prop := left.1 < right.1 ∨ (left.1 = right.1 ∧ left.2 ≤ right.2)

instance : DecidableRel Before := fun left right =>
  inferInstanceAs (Decidable (left.1 < right.1 ∨ (left.1 = right.1 ∧ left.2 ≤ right.2)))

instance : Std.Total Before := ⟨fun left right => by unfold Before; omega⟩

instance : IsTrans (ℕ × ℕ) Before := ⟨fun left middle right => by unfold Before; omega⟩

/-- Whether sorted ranges leave out a value from the cursor up. -/
def leavesGap (upper : ℕ) : ℕ → List (ℕ × ℕ) → Bool
  | cursor, [] => cursor ≤ upper
  | cursor, (rangeLower, rangeUpper) :: covered =>
    if rangeLower > cursor then true
    else
      let cursor := max cursor (rangeUpper + 1)
      if cursor > upper then false else leavesGap upper cursor covered

/-- The ranges cut down to an interval. -/
def clipped (ranges : List (ℕ × ℕ)) (lower upper : ℕ) : List (ℕ × ℕ) :=
  ranges.filterMap fun range =>
    let rangeLower := max range.1 lower
    let rangeUpper := min range.2 upper
    if rangeLower ≤ rangeUpper then some (rangeLower, rangeUpper) else none

/-- Whether some value of an interval is in the class. -/
def intersects (chars : CharSet) (lower upper : ℕ) : Bool :=
  if !chars.inverted then chars.ranges.any fun range => range.1 ≤ upper && lower ≤ range.2
  else
    leavesGap upper lower ((clipped chars.ranges lower upper).insertionSort Before)

end CharSet

inductive Symbol where
  | rule (rule : ℕ)
  | character (chars : CharSet)
  | token (terminal : TokenTerminal)
deriving DecidableEq

structure Production where
  lhs : ℕ
  rhs : List Symbol
deriving DecidableEq

structure Grammar where
  productions : List Production
  byLhs : List (List ℕ)
  startProduction : ℕ
deriving DecidableEq

def Grammar.production (grammar : Grammar) (index : ℕ) : Production := grammar.productions.getD index ⟨0, []⟩

section Intersects

variable {chars : CharSet} {ranges : List (ℕ × ℕ)} {lower upper cursor value : ℕ}

namespace CharSet

theorem matches_plain (plain : chars.inverted = false) : chars.matches value = true ↔
    ∃ range ∈ chars.ranges, range.1 ≤ value ∧ value ≤ range.2 := by
  simp only [CharSet.matches, plain, bne_iff_ne, ne_eq, Bool.not_eq_false, List.any_eq_true, Bool.and_eq_true,
    decide_eq_true_eq]

theorem matches_one (value other : ℕ) : (one value).matches other = true ↔ other = value := by
  rw [matches_plain rfl]
  simp only [one, List.mem_singleton, exists_eq_left]
  omega

theorem matches_inverted (inverted : chars.inverted = true) : chars.matches value = true ↔
    ∀ range ∈ chars.ranges, ¬(range.1 ≤ value ∧ value ≤ range.2) := by
  simp only [CharSet.matches, inverted, bne_iff_ne, ne_eq, Bool.not_eq_true, List.any_eq_false, Bool.and_eq_true,
    decide_eq_true_eq]

/-- A range that starts behind the cursor leaves a gap before it; else the cursor moves past it. -/
theorem leavesGap_iff (sorted : ranges.Pairwise fun left right => left.1 ≤ right.1) (start : cursor ≤ upper) :
    leavesGap upper cursor ranges = true ↔
      ∃ value, cursor ≤ value ∧ value ≤ upper ∧ ∀ range ∈ ranges, ¬(range.1 ≤ value ∧ value ≤ range.2) := by
  induction ranges generalizing cursor with
  | nil =>
    rw [leavesGap, decide_eq_true_eq]
    exact ⟨fun _ => ⟨cursor, le_rfl, start, fun range member => absurd member List.not_mem_nil⟩, fun _ => start⟩
  | cons range ranges ih =>
    obtain ⟨rangeLower, rangeUpper⟩ := range
    rw [List.pairwise_cons] at sorted
    rw [leavesGap]
    split
    · next later =>
      refine iff_of_true rfl ⟨cursor, le_rfl, start, fun range member => ?_⟩
      rcases List.mem_cons.mp member with rfl | member
      · exact fun inside => absurd inside.1 (Nat.not_le.mpr later)
      · have behind := sorted.1 range member
        dsimp only at behind
        omega
    · next early =>
      dsimp only
      split
      · next past =>
        refine iff_of_false Bool.false_ne_true ?_
        rintro ⟨value, low, high, outside⟩
        apply outside (rangeLower, rangeUpper) List.mem_cons_self
        dsimp only
        omega
      · next more =>
        rw [ih sorted.2 (Nat.not_lt.mp more)]
        constructor
        · rintro ⟨value, low, high, outside⟩
          refine ⟨value, (Nat.le_max_left _ _).trans low, high, fun range member => ?_⟩
          rcases List.mem_cons.mp member with rfl | member
          · dsimp only
            omega
          · exact outside range member
        · rintro ⟨value, low, high, outside⟩
          have first := outside (rangeLower, rangeUpper) List.mem_cons_self
          dsimp only at first
          exact ⟨value, by omega, high, fun range member => outside range (List.mem_cons_of_mem _ member)⟩

/-- Cutting ranges down to an interval does not change which of its values they have. -/
theorem clipped_outside (low : lower ≤ value) (high : value ≤ upper) :
    (∀ range ∈ clipped ranges lower upper, ¬(range.1 ≤ value ∧ value ≤ range.2)) ↔
      ∀ range ∈ ranges, ¬(range.1 ≤ value ∧ value ≤ range.2) := by
  constructor
  · intro outside range member inside
    apply outside (max range.1 lower, min range.2 upper)
    · refine List.mem_filterMap.mpr ⟨range, member, ?_⟩
      dsimp only
      rw [if_pos (by omega)]
    · dsimp only
      omega
  · intro outside range member inside
    obtain ⟨source, among, is⟩ := List.mem_filterMap.mp member
    dsimp only at is
    split at is
    · cases is
      apply outside source among
      dsimp only at inside
      omega
    · cases is

/-- Intersecting an interval is matching a value of it, where no range is empty. -/
theorem intersects_iff (ordered : ∀ range ∈ chars.ranges, range.1 ≤ range.2) (interval : lower ≤ upper) :
    chars.intersects lower upper = true ↔ ∃ value, lower ≤ value ∧ value ≤ upper ∧ chars.matches value = true := by
  rw [intersects]
  cases inverted : chars.inverted with
  | false =>
    simp only [Bool.not_false, if_true, List.any_eq_true, Bool.and_eq_true, decide_eq_true_eq, matches_plain inverted]
    constructor
    · rintro ⟨range, member, low, high⟩
      have some_ := ordered range member
      exact ⟨max lower range.1, by omega, by omega, range, member, by omega, by omega⟩
    · rintro ⟨value, low, high, range, member, low', high'⟩
      exact ⟨range, member, by omega, by omega⟩
  | true =>
    have sorted := List.pairwise_insertionSort Before (clipped chars.ranges lower upper)
    have starts : ((clipped chars.ranges lower upper).insertionSort Before).Pairwise fun left right => left.1 ≤ right.1 :=
      sorted.imp fun before => by unfold Before at before; omega
    rw [Bool.not_true, if_neg Bool.false_ne_true, leavesGap_iff starts interval]
    simp only [List.mem_insertionSort]
    constructor
    · rintro ⟨value, low, high, outside⟩
      exact ⟨value, low, high, (matches_inverted inverted).mpr ((clipped_outside low high).mp outside)⟩
    · rintro ⟨value, low, high, inside⟩
      exact ⟨value, low, high, (clipped_outside low high).mpr ((matches_inverted inverted).mp inside)⟩

end CharSet

end Intersects

end Muser.Gbnf
