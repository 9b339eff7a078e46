import Mathlib.Logic.Relation
import Mathlib.Data.List.Basic

/-! # Runs

Runs of a partial step function over a list of actions, and of a relation that allows some of its steps.
-/

namespace Muser

open Relation

variable {σ α : Type} {step : σ → α → Option σ} {allowed : σ → σ → Prop}

/-- The actions of a list, done one after another, are a run when each is an allowed step. -/
theorem foldlM_run {actions : List α} {state after : σ}
    (every : ∀ action ∈ actions, ∀ state after, step state action = some after → allowed state after)
    (is : actions.foldlM step state = some after) : ReflTransGen allowed state after := by
  induction actions generalizing state with
  | nil =>
    cases is
    exact .refl
  | cons action rest ih =>
    rw [List.foldlM_cons] at is
    obtain ⟨middle, taken, is⟩ := Option.bind_eq_some_iff.mp is
    have first : allowed state middle := every action (List.mem_cons_self ..) state middle taken
    exact .head first (ih (fun action mem => every action (List.mem_cons_of_mem _ mem)) is)

/-- What every allowed step keeps, every run keeps. -/
theorem kept_of_run {P : σ → Prop} (kept : ∀ state after, allowed state after → P state → P after) {state after : σ}
    (run : ReflTransGen allowed state after) (start : P state) : P after := by
  induction run with
  | refl => exact start
  | tail _ last ih => exact kept _ _ last ih

end Muser
