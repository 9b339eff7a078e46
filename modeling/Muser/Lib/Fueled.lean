/-! # Computations that answer, fail, or run out of steps

A loop or a recursion without a bound of its own is run for a number of steps. Running out of them
is an outcome beside an answer and a failure, so that "it ends" is a statement about the outcome and
"what it answers" does not depend on the bound. -/

namespace Muser

/-- A computation over the store `σ` which answers `α`, fails with `ε`, or is out of steps. -/
def Fueled (σ ε α : Type) := σ → Option (Except ε (α × σ))

namespace Fueled

variable {σ ε α β : Type}

instance : Monad (Fueled σ ε) where
  pure value := fun store => some (.ok (value, store))
  bind first next := fun store =>
    match first store with
    | none => none
    | some (.error failure) => some (.error failure)
    | some (.ok (value, middle)) => next value middle

/-- Observe the store. -/
def read (observe : σ → α) : Fueled σ ε α := fun store => some (.ok (observe store, store))

/-- Replace the store. -/
def modify (change : σ → σ) : Fueled σ ε Unit := fun store => some (.ok ((), change store))

/-- Answer and replace the store. -/
def step (change : σ → α × σ) : Fueled σ ε α := fun store => some (.ok (change store))

/-- Stop with a failure. -/
def fail (failure : σ → ε) : Fueled σ ε α := fun store => some (.error (failure store))

def exhausted : Fueled σ ε α := fun _ => none

/-- What the computation comes to from a store. -/
def run (computation : Fueled σ ε α) (store : σ) : Option (Except ε (α × σ)) := computation store

/-- The computation answers and leaves a store. -/
def Answers (run : Fueled σ ε α) (store : σ) (value : α) (after : σ) : Prop := run store = some (.ok (value, after))

/-- The computation is not out of steps. -/
def Halts (run : Fueled σ ε α) (store : σ) : Prop := run store ≠ none

variable {store middle after : σ} {value : α} {answer : β} {first : Fueled σ ε α} {next : α → Fueled σ ε β}

@[simp] theorem answers_pure {found : α} : (pure value : Fueled σ ε α).Answers store found after ↔
    value = found ∧ store = after := by
  simp [Answers, pure]

variable {observe : σ → α} {change : σ → α × σ} {failure : σ → ε} {other : Fueled σ ε α} {condition : Prop}

@[simp] theorem answers_read :
    (read observe : Fueled σ ε α).Answers store value after ↔ observe store = value ∧ store = after := by
  simp [Answers, read]

@[simp] theorem answers_modify {change : σ → σ} {nothing : Unit} :
    (modify change : Fueled σ ε Unit).Answers store nothing after ↔ change store = after := by
  simp [Answers, modify]

@[simp] theorem answers_step :
    (step change : Fueled σ ε α).Answers store value after ↔ change store = (value, after) := by
  simp [Answers, step]

@[simp] theorem answers_fail : ¬(fail failure : Fueled σ ε α).Answers store value after := by
  simp [Answers, fail]

@[simp] theorem answers_exhausted : ¬(exhausted : Fueled σ ε α).Answers store value after := by
  simp [Answers, exhausted]

/-- A sequence answers where its first part does and the second from there. -/
theorem answers_bind : (first >>= next).Answers store answer after ↔
    ∃ value middle, first.Answers store value middle ∧ (next value).Answers middle answer after := by
  simp only [Answers, bind]
  rcases first store with _ | ⟨failure | ⟨value, middle⟩⟩
  · simp
  · simp
  · simp only [Option.some.injEq, Except.ok.injEq, Prod.mk.injEq]
    exact ⟨fun answers => ⟨value, middle, ⟨rfl, rfl⟩, answers⟩, fun ⟨_, _, ⟨same, same'⟩, answers⟩ => same ▸ same' ▸ answers⟩

theorem answers_ite [Decidable condition] :
    (if condition then first else other).Answers store value after ↔
      (condition ∧ first.Answers store value after) ∨ (¬condition ∧ other.Answers store value after) := by
  split
  · next holds => simp [holds]
  · next fails => simp [fails]

theorem Answers.unique {value' : α} {after' : σ} (answers : first.Answers store value after)
    (others : first.Answers store value' after') : value = value' ∧ after = after' := by
  rw [Answers] at answers others
  simpa using answers.symm.trans others

@[simp] theorem halts_pure : (pure value : Fueled σ ε α).Halts store := nofun

@[simp] theorem halts_read : (read observe : Fueled σ ε α).Halts store := nofun

@[simp] theorem halts_modify {change : σ → σ} : (modify change : Fueled σ ε Unit).Halts store := nofun

@[simp] theorem halts_step : (step change : Fueled σ ε α).Halts store := nofun

@[simp] theorem halts_fail : (fail failure : Fueled σ ε α).Halts store := nofun

/-- A sequence is not out of steps where its first part is not, nor the second behind its answer. -/
theorem halts_bind (ends : first.Halts store)
    (then_ : ∀ value middle, first.Answers store value middle → (next value).Halts middle) :
    (first >>= next).Halts store := by
  simp only [Halts, bind]
  intro out
  have goes := then_
  revert out goes
  simp only [Answers, Halts]
  rcases found : first store with _ | ⟨failure | ⟨value, middle⟩⟩
  · exact fun _ _ => ends found
  · nofun
  · exact fun out goes => goes value middle rfl out

theorem halts_ite [Decidable condition] (then_ : condition → first.Halts store)
    (else_ : ¬condition → other.Halts store) : (if condition then first else other).Halts store := by
  split
  · next holds => exact then_ holds
  · next fails => exact else_ fails

end Fueled

end Muser
