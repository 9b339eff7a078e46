import Mathlib.Data.List.Basic

/-! # Fallible validators

A validator is a sequence of rejections in `Except`. The lemmas read acceptance back as a
conjunction of conditions, so that a caller inverts one accepted check instead of unfolding the
validator that made it. Nothing here depends on what is being validated.
-/

namespace Muser

variable {ε α β : Type}

/-- Refuse with `error` when `bad` holds. -/
def reject (bad : Bool) (error : ε) : Except ε Unit :=
  if bad then .error error else .ok ()

@[simp] theorem reject_eq_ok_iff {bad : Bool} {error : ε} {answer : Unit} :
    reject bad error = .ok answer ↔ bad = false := by
  cases bad <;> simp [reject]

variable {answer : β} {act : α → Except ε β} {answers : List β} {items : List α}

theorem bind_eq_ok_iff {first : Except ε α} {next : α → Except ε β} :
    (first >>= next) = .ok answer ↔ ∃ value, first = .ok value ∧ next value = .ok answer := by
  cases first with
  | error failure | ok value => simp [bind, Except.bind]

theorem toOption_eq_some_iff {outcome : Except ε α} {value : α} : outcome.toOption = some value ↔ outcome = .ok value := by
  cases outcome <;> simp [Except.toOption]

/-- A validator that answers nothing is accepted exactly when it and its successor are. -/
theorem check_eq_ok_iff {first : Except ε Unit} {next : Unit → Except ε β} :
    (first >>= next) = .ok answer ↔ first = .ok () ∧ next () = .ok answer := by
  rw [bind_eq_ok_iff]
  exact ⟨fun ⟨_, accepted, rest⟩ => ⟨accepted, rest⟩, fun ⟨accepted, rest⟩ => ⟨(), accepted, rest⟩⟩

/-- A loop of validators accepts exactly when every item is accepted. -/
theorem forM_eq_ok_iff (items : List α) (check : α → Except ε Unit) :
    forM items check = .ok () ↔ ∀ item ∈ items, check item = .ok () := by
  induction items with
  | nil => simp [pure, Except.pure]
  | cons item rest ih =>
    rw [List.forM_cons, check_eq_ok_iff, ih]
    simp

/-- A loop whose every item succeeds collects the answers in order. -/
theorem mapM_eq_ok (items : List α) (act : α → Except ε β) (holds : α → β → Prop)
    (each : ∀ item ∈ items, ∃ answer, act item = .ok answer ∧ holds item answer) :
    ∃ answers, items.mapM act = .ok answers ∧ List.Forall₂ holds items answers := by
  induction items with
  | nil => exact ⟨[], rfl, .nil⟩
  | cons item items ih =>
    obtain ⟨answer, acted, first⟩ := each item List.mem_cons_self
    obtain ⟨answers, rest, others⟩ := ih fun item member => each item (List.mem_cons_of_mem _ member)
    refine ⟨answer :: answers, ?_, .cons first others⟩
    rw [List.mapM_cons, acted, rest]
    rfl

/-- The answers of a loop are those of its items. -/
theorem forall₂_of_mapM_eq_ok
    (collected : items.mapM act = .ok answers) : List.Forall₂ (fun item answer => act item = .ok answer) items answers := by
  induction items generalizing answers with
  | nil =>
    cases collected
    exact .nil
  | cons item items ih =>
    rw [List.mapM_cons] at collected
    obtain ⟨answer, acted, rest⟩ := bind_eq_ok_iff.mp collected
    obtain ⟨others, more, done⟩ := bind_eq_ok_iff.mp rest
    cases done
    exact .cons acted (ih more)

/-- Each answer of a loop is that of one of its items. -/
theorem exists_of_mem_mapM
    (collected : items.mapM act = .ok answers) (mem : answer ∈ answers) : ∃ item ∈ items, act item = .ok answer := by
  have each := forall₂_of_mapM_eq_ok collected
  clear collected
  induction each with
  | nil => cases mem
  | cons acted _ ih =>
    rcases List.mem_cons.mp mem with rfl | mem
    · exact ⟨_, List.mem_cons_self .., acted⟩
    · obtain ⟨item, member, acted⟩ := ih mem
      exact ⟨item, List.mem_cons_of_mem _ member, acted⟩

end Muser
