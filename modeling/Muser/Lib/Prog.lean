import Muser.Lib.Check

/-! # Programs that keep their effects when they fail

A `Prog` reads and writes a store and either answers or fails; a failure keeps everything done
before it. This is how code with early returns behaves on its fields and on its files, and it lets
an interrupted call be observed as an ordinary failing one. `Ensures` is the postcondition of one
execution, over answers and failures alike.
-/

namespace Muser

/-- A computation over the store `σ` which answers `α` or fails with `ε`. -/
def Prog (σ ε α : Type) := σ → Except ε α × σ

namespace Prog

variable {σ ε α β : Type}

instance : Monad (Prog σ ε) where
  pure value := fun store => (.ok value, store)
  bind first next := fun store =>
    match first store with
    | (.ok value, middle) => next value middle
    | (.error failure, middle) => (.error failure, middle)

/-- Observe the whole store. -/
def read : Prog σ ε σ := fun store => (.ok store, store)

/-- Replace the store. -/
def modify (change : σ → σ) : Prog σ ε Unit := fun store => (.ok (), change store)

/-- Stop with a failure. -/
def fail (failure : ε) : Prog σ ε α := fun store => (.error failure, store)

/-- Run a computation that does not touch the store. -/
def lift (answer : Except ε α) : Prog σ ε α := fun store => (answer, store)

@[simp] theorem modify_apply (change : σ → σ) (store : σ) :
    (modify change : Prog σ ε Unit) store = (.ok (), change store) := rfl

@[simp] theorem fail_apply (failure : ε) (store : σ) :
    (fail failure : Prog σ ε α) store = (.error failure, store) := rfl

@[simp] theorem lift_apply (answer : Except ε α) (store : σ) :
    (lift answer : Prog σ ε α) store = (answer, store) := rfl

variable {next : α → Prog σ ε β} {first : Prog σ ε α} {store : σ} {post : Except ε β → σ → Prop}

theorem bind_of_ok {store middle : σ} {value : α}
    (ran : first store = (.ok value, middle)) : (first >>= next) store = next value middle := by
  simp only [bind, ran]

theorem bind_of_error {store middle : σ} {failure : ε}
    (ran : first store = (.error failure, middle)) : (first >>= next) store = (.error failure, middle) := by
  simp only [bind, ran]

@[simp] theorem bind_pure (value : α) (next : α → Prog σ ε β) (store : σ) :
    ((pure value : Prog σ ε α) >>= next) store = next value store := rfl

@[simp] theorem bind_read (next : σ → Prog σ ε β) (store : σ) : (read >>= next) store = next store store := rfl

@[simp] theorem bind_modify (change : σ → σ) (next : Unit → Prog σ ε β) (store : σ) :
    (modify change >>= next) store = next () (change store) := rfl

@[simp] theorem bind_lift_ok (value : α) (next : α → Prog σ ε β) (store : σ) :
    (lift (.ok value) >>= next) store = next value store := rfl

@[simp] theorem bind_lift_error (failure : ε) (next : α → Prog σ ε β) (store : σ) :
    (lift (.error failure) >>= next) store = (.error failure, store) := rfl

theorem bind_assoc {γ : Type} (first : Prog σ ε α) (next : α → Prog σ ε β) (last : β → Prog σ ε γ) :
    (first >>= next) >>= last = first >>= fun value => next value >>= last := by
  funext store
  cases ran : first store with
  | mk answer middle => cases answer <;> simp only [bind, ran]

/-- The outcome and the store of one execution satisfy `post`. -/
def Ensures (program : Prog σ ε α) (store : σ) (post : Except ε α → σ → Prop) : Prop :=
  post (program store).1 (program store).2

theorem Ensures.mono {program : Prog σ ε α} {post weaker : Except ε α → σ → Prop}
    (ensured : program.Ensures store post) (weaken : ∀ answer after, post answer after → weaker answer after) :
    program.Ensures store weaker :=
  weaken _ _ ensured

@[simp] theorem ensures_fail {failure : ε} {post : Except ε α → σ → Prop} :
    (fail failure : Prog σ ε α).Ensures store post ↔ post (.error failure) store := Iff.rfl

/-- A failure ends the sequence where it stands; an answer hands its store on. -/
theorem ensures_bind :
    (first >>= next).Ensures store post ↔ first.Ensures store (fun answer middle =>
      match answer with
      | .ok value => (next value).Ensures middle post
      | .error failure => post (.error failure) middle) := by
  unfold Ensures
  cases ran : first store with
  | mk answer middle =>
    cases answer with
    | ok value => rw [bind_of_ok ran]
    | error failure => rw [bind_of_error ran]

/-- Sequencing from separate contracts for the answer and for the failure of the first part. -/
theorem Ensures.bind {middlePost : Except ε α → σ → Prop} (ensured : first.Ensures store middlePost)
    (answered : ∀ value middle, middlePost (.ok value) middle → (next value).Ensures middle post)
    (failed : ∀ failure middle, middlePost (.error failure) middle → post (.error failure) middle) :
    (first >>= next).Ensures store post := by
  rw [ensures_bind]
  refine ensured.mono fun answer middle held => ?_
  cases answer with
  | ok value => exact answered value middle held
  | error failure => exact failed failure middle held

/-- Sequencing after whatever the first part did. -/
theorem ensures_bind_ran
    (answered : ∀ value middle, first store = (.ok value, middle) → (next value).Ensures middle post)
    (failed : ∀ failure middle, first store = (.error failure, middle) → post (.error failure) middle) :
    (first >>= next).Ensures store post := by
  rw [ensures_bind, Ensures]
  cases ran : first store with
  | mk answer middle =>
    cases answer with
    | ok value => exact answered value middle ran
    | error failure => exact failed failure middle ran

/-- Failing validators leave the store alone; accepted ones expose their value. -/
theorem ensures_lift_bind {answer : Except ε α}
    (failed : ∀ failure, answer = .error failure → post (.error failure) store)
    (answered : ∀ value, answer = .ok value → (next value).Ensures store post) :
    (lift answer >>= next).Ensures store post := by
  cases answer with
  | ok value => exact answered value rfl
  | error failure => exact failed failure rfl

theorem ensures_read_bind {next : σ → Prog σ ε β} :
    (read >>= next).Ensures store post ↔ (next store).Ensures store post := Iff.rfl

theorem ensures_modify_bind {change : σ → σ} {next : Unit → Prog σ ε β} :
    (modify change >>= next).Ensures store post ↔ (next ()).Ensures (change store) post := Iff.rfl

end Prog

end Muser
