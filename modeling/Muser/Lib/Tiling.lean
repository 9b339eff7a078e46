import Mathlib.Data.List.Range
import Mathlib.Tactic.Ring

/-! # Tilings of a span

Tiles are `(start, count)` pairs. A tiling of a span lists nonempty tiles that follow one another
from its start to its stop. Cutting a span in steps gives a tiling, and so does what is left of a
tiling from some point on.
-/

namespace Muser

/-- `start`, `start + step`, and so on below `stop`. -/
def rangeStep (start stop step : ℕ) : List ℕ :=
  (List.range ((stop - start + step - 1) / step)).map fun index => start + index * step

/-- The part of a tile from `first` on. -/
def clipTile (first : ℕ) (tile : ℕ × ℕ) : Option (ℕ × ℕ) :=
  let tileEnd := tile.1 + tile.2
  if tileEnd ≤ first then none
  else
    let chunkStart := max tile.1 first
    some (chunkStart, tileEnd - chunkStart)

/-- The tiles, of at most `limit` rows each, follow one another from `start` to `stop`. -/
inductive Covers (limit : ℕ) : ℕ → ℕ → List (ℕ × ℕ) → Prop where
  | done (start : ℕ) : Covers limit start start []
  | tile {start count stop : ℕ} {rest : List (ℕ × ℕ)} (nonempty : 1 ≤ count) (bounded : count ≤ limit)
      (follows : Covers limit (start + count) stop rest) : Covers limit start stop ((start, count) :: rest)

/-- The tiles follow one another from `start` to `stop`, whatever their sizes. -/
inductive Chain : ℕ → ℕ → List (ℕ × ℕ) → Prop where
  | done (start : ℕ) : Chain start start []
  | tile {start count stop : ℕ} {rest : List (ℕ × ℕ)} (follows : Chain (start + count) stop rest) :
      Chain start stop ((start, count) :: rest)

section Steps

variable {start stop step : ℕ}

theorem rangeStep_of_le (reached : stop ≤ start) (positive : 0 < step) : rangeStep start stop step = [] := by
  have short : (stop - start + step - 1) / step = 0 := Nat.div_eq_of_lt (by omega)
  rw [rangeStep, short]
  rfl

/-- The number of steps, one step later. -/
theorem steps_succ (left : start < stop) (positive : 0 < step) :
    (stop - start + step - 1) / step = (stop - (start + step) + step - 1) / step + 1 := by
  by_cases last : stop ≤ start + step
  · have one : (stop - start + step - 1) / step = 1 :=
      Nat.div_eq_of_lt_le (by lia) (by lia)
    have none_left : (stop - (start + step) + step - 1) / step = 0 := Nat.div_eq_of_lt (by lia)
    lia
  · have split : stop - start + step - 1 = (stop - (start + step) + step - 1) + step := by lia
    rw [split, Nat.add_div_right _ positive]

theorem rangeStep_of_lt (left : start < stop) (positive : 0 < step) :
    rangeStep start stop step = start :: rangeStep (start + step) stop step := by
  rw [rangeStep, steps_succ left positive, List.range_succ_eq_map, List.map_cons, List.map_map, Nat.zero_mul,
    Nat.add_zero, rangeStep]
  congr 1
  apply List.map_congr_left
  intro index _
  simp only [Function.comp_apply, Nat.succ_eq_add_one]
  ring

theorem length_rangeStep : (rangeStep start stop step).length = (stop - start + step - 1) / step := by
  simp [rangeStep]

/-- The tiles of a span cut in steps, the last one short. -/
def stepTiles (start stop step : ℕ) : List (ℕ × ℕ) :=
  (rangeStep start stop step).map fun tileStart => (tileStart, min (stop - tileStart) step)

theorem stepTiles_of_lt (left : start < stop) (positive : 0 < step) :
    stepTiles start stop step = (start, min (stop - start) step) :: stepTiles (start + step) stop step := by
  rw [stepTiles, rangeStep_of_lt left positive]
  rfl

theorem covers_stepTiles (positive : 0 < step) (ordered : start ≤ stop) :
    Covers step start stop (stepTiles start stop step) := by
  -- Every step leaves less of the span.
  induction remaining : stop - start using Nat.strong_induction_on generalizing start with
  | _ size ih =>
    by_cases left : start < stop
    · rw [stepTiles_of_lt left positive]
      refine .tile (by lia) (by lia) ?_
      by_cases last : stop ≤ start + step
      · have ends : start + min (stop - start) step = stop := by lia
        rw [ends, stepTiles, rangeStep_of_le last positive]
        exact .done stop
      · have full : start + min (stop - start) step = start + step := by lia
        rw [full]
        exact ih (stop - (start + step)) (by lia) (by lia) rfl
    · have ends : start = stop := by lia
      subst ends
      rw [stepTiles, rangeStep_of_le (Nat.le_refl _) positive]
      exact .done _

/-- Clipping drops the tiles that end before the first row kept, and no other. -/
theorem length_filterMap_clipTile (positive : 0 < step) {first : ℕ} (inside : first < stop) :
    ((stepTiles start stop step).filterMap (clipTile first)).length =
      (stop - start + step - 1) / step - (first - start) / step := by
  induction remaining : stop - start using Nat.strong_induction_on generalizing start with
  | _ size ih =>
    by_cases left : start < stop
    · have rest := ih (stop - (start + step)) (by omega) rfl
      rw [stepTiles_of_lt left positive, ← remaining, steps_succ left positive, List.filterMap_cons]
      by_cases dropped : start + min (stop - start) step ≤ first
      · have later : first - start = (first - (start + step)) + step := by omega
        simp only [clipTile, dropped, if_true, later, Nat.add_div_right _ positive]
        omega
      · have early : (first - start) / step = 0 := Nat.div_eq_of_lt (by omega)
        have earlier : (first - (start + step)) / step = 0 := Nat.div_eq_of_lt (by omega)
        simp only [clipTile, dropped, if_false, List.length_cons]
        rw [rest, early, earlier, Nat.sub_zero, Nat.sub_zero]
    · have past : stop ≤ start := by omega
      have short : (size + step - 1) / step = 0 := Nat.div_eq_of_lt (by omega)
      rw [stepTiles, rangeStep_of_le past positive, short, Nat.zero_sub]
      rfl

end Steps

theorem Chain.start_le {start stop : ℕ} {tiles : List (ℕ × ℕ)} (chain : Chain start stop tiles) : start ≤ stop := by
  induction chain with
  | done => exact Nat.le_refl _
  | tile _ ih => omega

theorem Chain.of_nil {start stop : ℕ} (chain : Chain start stop []) : start = stop := by
  cases chain
  rfl

theorem Chain.of_cons {start stop : ℕ} {first : ℕ × ℕ} {rest : List (ℕ × ℕ)} (chain : Chain start stop (first :: rest)) :
    first.1 = start ∧ Chain (first.1 + first.2) stop rest := by
  cases chain with
  | tile follows => exact ⟨rfl, follows⟩

namespace Covers

variable {limit start stop : ℕ} {tiles : List (ℕ × ℕ)}

theorem start_le (covers : Covers limit start stop tiles) : start ≤ stop := by
  induction covers with
  | done => exact Nat.le_refl _
  | tile _ _ _ ih => omega

theorem chain (covers : Covers limit start stop tiles) : Chain start stop tiles := by
  induction covers with
  | done start => exact .done start
  | tile _ _ _ ih => exact .tile ih

/-- A tile is within the span and within the limit. -/
theorem mem_le (covers : Covers limit start stop tiles) {tile : ℕ × ℕ} (member : tile ∈ tiles) :
    tile.1 + tile.2 ≤ stop ∧ tile.2 ≤ limit := by
  induction covers with
  | done => simp at member
  | tile _ bounded follows ih =>
    rcases List.mem_cons.mp member with rfl | later
    · exact ⟨follows.start_le, bounded⟩
    · exact ih later

theorem clip {first : ℕ} (covers : Covers limit start stop tiles) (inside : first ≤ stop) :
    Covers limit (max start first) stop (tiles.filterMap (clipTile first)) := by
  induction covers with
  | done start =>
    rw [max_eq_left inside]
    exact .done start
  | @tile start count stop rest nonempty bounded follows ih =>
    rw [List.filterMap_cons]
    by_cases dropped : start + count ≤ first
    · have same : max start first = max (start + count) first := by lia
      simp only [clipTile, dropped, if_true, same]
      exact ih inside
    · have next : max start first + (start + count - max start first) = max (start + count) first := by lia
      simp only [clipTile, dropped, if_false]
      refine .tile (by lia) (by lia) ?_
      rw [next]
      exact ih inside

end Covers

end Muser
