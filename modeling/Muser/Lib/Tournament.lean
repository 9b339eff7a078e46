import Mathlib.Algebra.Group.Nat.Defs
import Mathlib.Order.Lattice
import Mathlib.Tactic.Common

/-! # Tournaments

A reduction tree over `2 ^ count` lanes halves them until one is left: each lane is played against the
one half of the lanes further on, and only a greater value takes its place. The lane that is left has the
greatest value, and of several with that value it is not the first one: the tree prefers the lanes in the
order of their turned numbers, whose binary digits are read from the other end.
-/

namespace Muser

section Tournament

variable {α β : Type} [LinearOrder β] (value : α → β)

/-- The better of two lanes, the left one where they are as good. -/
def better (left right : α) : α := if value left < value right then right else left

/-- The lane that is left of `2 ^ count` of them. -/
def tournament : ℕ → (ℕ → α) → α
  | 0, lanes => lanes 0
  | count + 1, lanes => tournament count fun lane => better value (lanes lane) (lanes (lane + 2 ^ count))

/-- A number with its `count` binary digits turned round. -/
def turned : ℕ → ℕ → ℕ
  | 0, _ => 0
  | count + 1, lane => 2 * turned count (lane % 2 ^ count) + lane / 2 ^ count

variable {value} {count lane other : ℕ} {lanes : ℕ → α}

theorem turned_zero : turned count 0 = 0 := by
  induction count with
  | zero => rfl
  | succ count ih => rw [turned, Nat.zero_mod, Nat.zero_div, ih]

theorem turned_low (low : lane < 2 ^ count) : turned (count + 1) lane = 2 * turned count lane := by
  rw [turned, Nat.mod_eq_of_lt low, Nat.div_eq_of_lt low, Nat.add_zero]

theorem turned_high (low : lane < 2 ^ count) : turned (count + 1) (lane + 2 ^ count) = 2 * turned count lane + 1 := by
  rw [turned, Nat.add_mod_right, Nat.mod_eq_of_lt low, Nat.add_div_right _ (Nat.two_pow_pos count), Nat.div_eq_of_lt low]

theorem turned_lt (inside : lane < 2 ^ count) : turned count lane < 2 ^ count := by
  induction count generalizing lane with
  | zero => exact Nat.one_pos
  | succ count ih =>
    have half := ih (Nat.mod_lt lane (Nat.two_pow_pos count))
    have digit : lane / 2 ^ count < 2 := Nat.div_lt_of_lt_mul (by rwa [Nat.pow_succ] at inside)
    rw [turned, Nat.pow_succ]
    omega

/-- A lane below `2 ^ (count + 1)` is one of the lower half, or one of them half the lanes further on. -/
theorem lane_halves (inside : lane < 2 ^ (count + 1)) :
    lane < 2 ^ count ∨ ∃ low, low < 2 ^ count ∧ lane = low + 2 ^ count := by
  rw [Nat.pow_succ] at inside
  rcases Nat.lt_or_ge lane (2 ^ count) with low | high
  · exact .inl low
  · exact .inr ⟨lane - 2 ^ count, by omega, by omega⟩

theorem turned_injective (inside : lane < 2 ^ count) (inside' : other < 2 ^ count)
    (same : turned count lane = turned count other) : lane = other := by
  induction count generalizing lane other with
  | zero =>
    rw [Nat.pow_zero, Nat.lt_one_iff] at inside inside'
    rw [inside, inside']
  | succ count ih =>
    rcases lane_halves inside with low | ⟨lane, low, rfl⟩ <;> rcases lane_halves inside' with low' | ⟨other, low', rfl⟩
    · rw [turned_low low, turned_low low'] at same
      exact ih low low' (by omega)
    · rw [turned_low low, turned_high low'] at same
      omega
    · rw [turned_high low, turned_low low'] at same
      omega
    · rw [turned_high low, turned_high low'] at same
      rw [ih low low' (by omega)]

/-- A lane is ahead of another: its value is greater, or it is the same and its turned number is no greater. -/
def Ahead (count : ℕ) (value : ℕ → β) (lane other : ℕ) : Prop :=
  value other < value lane ∨ value other = value lane ∧ turned count lane ≤ turned count other

theorem Ahead.trans {values : ℕ → β} {last : ℕ} (ahead : Ahead count values lane other)
    (behind : Ahead count values other last) :
    Ahead count values lane last := by
  rcases ahead with greater | ⟨same, before⟩
  · rcases behind with greater' | ⟨same', -⟩
    · exact .inl (lt_trans greater' greater)
    · exact .inl (same' ▸ greater)
  · rcases behind with greater' | ⟨same', before'⟩
    · exact .inl (same ▸ greater')
    · exact .inr ⟨same'.trans same, Nat.le_trans before before'⟩

/-- A lane with nothing that is ahead of the first one is the first. -/
theorem Ahead.eq_zero {values : ℕ → β} (inside : lane < 2 ^ count) (ahead : Ahead count values lane 0)
    (least : ¬values 0 < values lane) : lane = 0 := by
  rcases ahead with greater | ⟨-, before⟩
  · exact absurd greater least
  · rw [turned_zero, Nat.le_zero, ← @turned_zero count] at before
    exact turned_injective inside (Nat.two_pow_pos count) before

/-- Which of a lane and the one half the lanes further on is the better. -/
def betterLane (value : α → β) (count : ℕ) (lanes : ℕ → α) (lane : ℕ) : ℕ :=
  if value (lanes lane) < value (lanes (lane + 2 ^ count)) then lane + 2 ^ count else lane

theorem better_eq : better value (lanes lane) (lanes (lane + 2 ^ count)) = lanes (betterLane value count lanes lane) := by
  rw [better, betterLane]
  split <;> rfl

theorem betterLane_lt (low : lane < 2 ^ count) : betterLane value count lanes lane < 2 ^ (count + 1) := by
  rw [betterLane, Nat.pow_succ]
  split <;> omega

theorem turned_betterLane (low : lane < 2 ^ count) : turned (count + 1)
    (betterLane value count lanes lane) / 2 = turned count lane := by
  rw [betterLane]
  split
  · rw [turned_high low]
    omega
  · rw [turned_low low]
    omega

theorem betterLane_ahead (low : lane < 2 ^ count) :
    Ahead (count + 1) (fun lane => value (lanes lane)) (betterLane value count lanes lane) lane ∧
      Ahead (count + 1) (fun lane => value (lanes lane)) (betterLane value count lanes lane) (lane + 2 ^ count) := by
  rw [betterLane]
  split
  · next higher => exact ⟨.inl higher, .inr ⟨rfl, Nat.le_refl _⟩⟩
  · next lower =>
    refine ⟨.inr ⟨rfl, Nat.le_refl _⟩, ?_⟩
    rcases lt_or_eq_of_le (not_lt.mp lower) with below | same
    · exact .inl below
    · refine .inr ⟨same, ?_⟩
      rw [turned_low low, turned_high low]
      omega

/-- The lane that is left is ahead of all. -/
theorem tournament_ahead (value : α → β) (count : ℕ) (lanes : ℕ → α) :
    ∃ winner < 2 ^ count, tournament value count lanes = lanes winner ∧
      ∀ other < 2 ^ count, Ahead count (fun lane => value (lanes lane)) winner other := by
  induction count generalizing lanes with
  | zero =>
    refine ⟨0, Nat.one_pos, rfl, fun other inside => .inr ⟨?_, Nat.le_refl 0⟩⟩
    rw [Nat.lt_one_iff.mp inside]
  | succ count ih =>
    obtain ⟨lane, low, is, ahead⟩ := ih fun lane => better value (lanes lane) (lanes (lane + 2 ^ count))
    -- The winner is ahead of the better lane of every pair, which is ahead of both of its pair.
    have pairs : ∀ other < 2 ^ count, Ahead (count + 1) (fun lane => value (lanes lane)) (betterLane value count lanes lane)
        (betterLane value count lanes other) := by
      intro other low'
      have played := ahead other low'
      rw [Ahead] at played
      rw [better_eq, better_eq] at played
      rcases played with greater | ⟨same, before⟩
      · exact .inl greater
      · rcases Nat.lt_or_eq_of_le before with sooner | level
        · refine .inr ⟨same, ?_⟩
          have place := @turned_betterLane α β _ value count lane lanes low
          have place' := @turned_betterLane α β _ value count other lanes low'
          omega
        · rw [turned_injective low low' level]
          exact .inr ⟨rfl, Nat.le_refl _⟩
    refine ⟨betterLane value count lanes lane, betterLane_lt low, is.trans better_eq, fun other inside => ?_⟩
    rcases lane_halves inside with low' | ⟨other, low', rfl⟩
    · exact (pairs other low').trans (betterLane_ahead low').1
    · exact (pairs other low').trans (betterLane_ahead low').2

end Tournament

end Muser
