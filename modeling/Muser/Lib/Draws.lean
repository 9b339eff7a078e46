import Mathlib.Algebra.BigOperators.Ring.List
import Mathlib.Algebra.Order.Field.Basic

/-! # Drawing from weights

A draw goes through candidates with the running sum of their weights, up to the first where the sum has
reached what was drawn. A candidate that is reached has a weight: the sum without it had not got there.
-/

namespace Muser

variable {R α : Type}

section Reach

variable [AddCommMonoid R]

/-- The first candidate where the running sum has reached the draw. -/
def reach (reached : R → Prop) [DecidablePred reached] (weight : α → R) : R → List α → Option α
  | _, [] => none
  | sum, candidate :: others =>
    if reached (sum + weight candidate) then some candidate else reach reached weight (sum + weight candidate) others

variable {reached : R → Prop} [DecidablePred reached] {weight : α → R} {sum : R} {candidates : List α} {chosen : α}

end Reach

section Draws

variable [Field R] [LinearOrder R] {weight : α → R} {candidates : List α} {draw total : R}

variable [IsStrictOrderedRing R]

end Draws

end Muser
