import Mathlib.Order.Defs.LinearOrder
import Mathlib.Order.Lattice

/-! # Turns in cyclic order

Who comes next after the last one served: those above it in ascending order, then the others. Serving
someone who comes before another brings that other's turn closer, and nobody who was passed comes before
it again.
-/

namespace Muser

variable {α : Type} [LinearOrder α] {last : Option α} {left middle right served : α}

/-- Above the last one served. -/
def Above (last : Option α) (candidate : α) : Prop := ∃ served ∈ last, served < candidate

@[simp] theorem not_above_none (candidate : α) : ¬ Above none candidate := by simp [Above]

@[simp] theorem above_some : Above (some served) left ↔ served < left := by simp [Above]

instance (last : Option α) (candidate : α) : Decidable (Above last candidate) :=
  match last with
  | none => isFalse (not_above_none candidate)
  | some _ => decidable_of_iff _ above_some.symm

/-- The turn of `left` comes before that of `right`. -/
def Precedes (last : Option α) (left right : α) : Prop :=
  (Above last left ∧ ¬ Above last right) ∨ ((Above last left ↔ Above last right) ∧ left < right)

instance (last : Option α) (left right : α) : Decidable (Precedes last left right) := instDecidableOr

theorem Precedes.irrefl (last : Option α) (left : α) : ¬ Precedes last left left := by
  simp [Precedes]

theorem Precedes.trans (first : Precedes last left middle) (second : Precedes last middle right) :
    Precedes last left right := by
  unfold Precedes at *
  rcases first with ⟨above, below⟩ | ⟨same, less⟩
  · rcases second with ⟨above', -⟩ | ⟨same', -⟩
    · exact absurd above' below
    · exact .inl ⟨above, fun above' => below (same'.mpr above')⟩
  · rcases second with ⟨above', below'⟩ | ⟨same', less'⟩
    · exact .inl ⟨same.mpr above', below'⟩
    · exact .inr ⟨same.trans same', less.trans less'⟩

theorem Precedes.total (last : Option α) (ne : left ≠ right) : Precedes last left right ∨ Precedes last right left := by
  unfold Precedes
  by_cases above : Above last left <;> by_cases above' : Above last right
  · simpa [above, above'] using lt_or_gt_of_ne ne
  · simp [above, above']
  · simp [above, above']
  · simpa [above, above'] using lt_or_gt_of_ne ne

/-- Once someone ahead of `right` has been served, whoever is ahead of `right` was behind the served. -/
theorem Precedes.of_served (ahead : Precedes last served right) (next : Precedes (some served) left right) :
    Precedes last left right ∧ Precedes last served left := by
  cases last with
  | none =>
    simp only [Precedes, not_above_none, false_and, true_and, iff_self, false_or, above_some] at ahead next ⊢
    rcases next with ⟨-, below⟩ | ⟨same, less⟩
    · exact absurd ahead below
    · exact ⟨less, same.mpr ahead⟩
  | some previous =>
    simp only [Precedes, above_some] at ahead next ⊢
    rcases ahead with ⟨above, below⟩ | ⟨same, less⟩
    · have wrapped : ¬ served < right := fun up => below (above.trans up)
      rcases next with ⟨up, -⟩ | ⟨same', less'⟩
      · exact ⟨.inl ⟨above.trans up, below⟩, .inr ⟨⟨fun _ => above.trans up, fun _ => above⟩, up⟩⟩
      · have under : ¬ previous < left := fun up => below (up.trans less')
        exact ⟨.inr ⟨⟨fun up => absurd up under, fun up => absurd up below⟩, less'⟩, .inl ⟨above, under⟩⟩
    · rcases next with ⟨-, below'⟩ | ⟨same', less'⟩
      · exact absurd less below'
      · have up := same'.mpr less
        by_cases above : previous < served
        · exact ⟨.inr ⟨⟨fun _ => same.mp above, fun _ => above.trans up⟩, less'⟩,
            .inr ⟨⟨fun _ => above.trans up, fun _ => above⟩, up⟩⟩
        · by_cases beyond : previous < left
          · have top := same.mpr (beyond.trans less')
            exact absurd top above
          · exact ⟨.inr ⟨⟨fun up => absurd up beyond, fun up => absurd (same.mpr up) above⟩, less'⟩,
              .inr ⟨⟨fun up => absurd up above, fun up => absurd up beyond⟩, up⟩⟩

end Muser
