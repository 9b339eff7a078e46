import Mathlib.Data.List.Basic
import Mathlib.Order.Bounds.Basic

/-! # Repeated endings

Where a pattern stands in a text, and which items stood earlier behind what the text ends with.
-/

namespace Muser

variable {α : Type} {pattern text window : List α} {start length : ℕ} {next : α}

/-- A pattern stands in a text at a place. -/
def Occurs (pattern text : List α) (start : ℕ) : Prop := pattern <+: text.drop start

theorem Occurs.le (occurs : Occurs pattern text start) (some_ : pattern ≠ []) : start + pattern.length ≤ text.length := by
  have within := occurs.length_le
  have positive := List.length_pos_of_ne_nil some_
  rw [List.length_drop] at within
  omega

theorem occurs_append_left (front : List α) : Occurs pattern (front ++ text) (front.length + start) ↔
    Occurs pattern text start := by
  rw [Occurs, Occurs, List.drop_length_add_append]

/-- The last items of a window, so many of them, stand in it earlier with an item behind them. -/
def Repeats (window : List α) (length : ℕ) (next : α) : Prop :=
  ∃ start, start + length < window.length ∧ (window.drop start).take length = window.drop (window.length - length) ∧
    window[start + length]? = some next

theorem Repeats.length_lt (repeats : Repeats window length next) : length < window.length := by
  obtain ⟨start, within, -, -⟩ := repeats
  omega

/-- Of what is repeated the end is. -/
theorem Repeats.shorter {fewer : ℕ} (repeats : Repeats window length next) (less : fewer ≤ length) :
    Repeats window fewer next := by
  obtain ⟨start, within, same, behind⟩ := repeats
  refine ⟨start + (length - fewer), by omega, ?_, ?_⟩
  · have tails := congrArg (List.drop (length - fewer)) same
    rw [List.drop_take, List.drop_drop, List.drop_drop, show length - (length - fewer) = fewer by omega,
      show window.length - length + (length - fewer) = window.length - fewer by omega] at tails
    exact tails
  · rwa [show start + (length - fewer) + fewer = start + length by omega]

/-- What a window repeats, a longer one does. -/
theorem Repeats.append_left (repeats : Repeats window length next) (front : List α) :
    Repeats (front ++ window) length next := by
  have fits := repeats.length_lt
  obtain ⟨start, within, same, behind⟩ := repeats
  refine ⟨front.length + start, by rw [List.length_append]; omega, ?_, ?_⟩
  · rw [List.drop_length_add_append, List.length_append,
      show front.length + window.length - length = front.length + (window.length - length) by omega,
      List.drop_length_add_append, same]
  · rw [Nat.add_assoc, List.getElem?_append_right (by omega), Nat.add_sub_cancel_left, behind]

/-- The last of the numbers below a limit that pass a test. -/
theorem find?_range_reverse {test : ℕ → Bool} {limit : ℕ} : (∀ last, (List.range limit).reverse.find? test = some last →
      last < limit ∧ test last = true ∧ ∀ other, other < limit → test other = true → other ≤ last) ∧
    ((List.range limit).reverse.find? test = none → ∀ other, other < limit → test other = false) := by
  induction limit with
  | zero => exact ⟨nofun, fun _ other below => absurd below (Nat.not_lt_zero other)⟩
  | succ limit ih =>
    rw [List.range_succ, List.reverse_append, List.reverse_singleton, List.singleton_append, List.find?_cons]
    cases holds : test limit with
    | true =>
      refine ⟨fun last is => ?_, nofun⟩
      cases is
      exact ⟨Nat.lt_succ_self _, holds, fun other below _ => Nat.lt_succ_iff.mp below⟩
    | false =>
      have other_ {other : ℕ} (below : other < limit + 1) (ne : other ≠ limit) : other < limit := by omega
      refine ⟨fun last is => ?_, fun is other below => ?_⟩
      · obtain ⟨below, passes, most⟩ := ih.1 last is
        refine ⟨by omega, passes, fun other below' passes' => most other (other_ below' ?_) passes'⟩
        rintro rfl
        rw [holds] at passes'
        cases passes'
      · by_cases same : other = limit
        · rw [same, holds]
        · exact ih.2 is other (other_ below same)

end Muser
