import Muser.Lib.Bytes

/-! # Readers of bytes

A reader takes what it needs off the front of some bytes, and answers with a value or refuses. A value
is spelled by bytes where the reader takes just them and leaves what comes behind alone.
-/

namespace Muser

/-- A computation that reads bytes and answers `α` or fails with `ε`. -/
def Reader (ε α : Type) := Bytes → Except ε (α × Bytes)

namespace Reader

variable {ε α β : Type}

instance : Monad (Reader ε) where
  pure value := fun bytes => .ok (value, bytes)
  bind first next := fun bytes =>
    match first bytes with
    | .ok (value, rest) => next value rest
    | .error failure => .error failure

/-- Refuse. -/
def fail (failure : ε) : Reader ε α := fun _ => .error failure

/-- Refuse with `failure` where `bad` holds. -/
def refuse (bad : Bool) (failure : ε) : Reader ε Unit := if bad then fail failure else pure ()

/-- An answer that does not read. -/
def lift (answer : Except ε α) : Reader ε α := fun bytes => answer.map (·, bytes)

/-- How many bytes are left. -/
def remaining : Reader ε ℕ := fun bytes => .ok (bytes.length, bytes)

/-- So many bytes, or a failure where there are fewer. -/
def take (count : ℕ) (short : ε) : Reader ε Bytes := fun bytes =>
  if bytes.length < count then .error short else .ok (bytes.take count, bytes.drop count)

/-- So many items, one behind the other. -/
def times (item : Reader ε α) : ℕ → Reader ε (List α)
  | 0 => pure []
  | count + 1 => do
    let first ← item
    let others ← times item count
    pure (first :: others)

/-- So many more items, each read in view of those before it. -/
def more (item : List α → Reader ε α) : ℕ → List α → Reader ε (List α)
  | 0, items => pure items
  | count + 1, items => do
    let next ← item items
    more item count (items ++ [next])

variable {reader : Reader ε α} {next : α → Reader ε β} {bytes front back rest : Bytes} {value : α} {other : β} {failure : ε}

theorem pure_eq_ok_iff : (pure value : Reader ε α) bytes = .ok (value', rest) ↔ value = value' ∧ bytes = rest := by
  rw [show (pure value : Reader ε α) bytes = .ok (value, bytes) from rfl, Except.ok.injEq, Prod.mk.injEq]

theorem bind_eq_ok_iff : (reader >>= next) bytes = .ok (other, rest) ↔
    ∃ value middle, reader bytes = .ok (value, middle) ∧ next value middle = .ok (other, rest) := by
  simp only [bind]
  cases reader bytes with
  | error failure => simp
  | ok both =>
    obtain ⟨value, middle⟩ := both
    simp

theorem refuse_eq_ok_iff {bad : Bool} {answer : Unit} :
    refuse bad failure bytes = .ok (answer, rest) ↔ bad = false ∧ bytes = rest := by
  cases bad with
  | true => simp [refuse, fail]
  | false => simp [refuse, pure_eq_ok_iff]

theorem lift_eq_ok_iff {answer : Except ε α} : lift answer bytes = .ok (value, rest) ↔ answer = .ok value ∧
    bytes = rest := by
  cases answer with
  | error failure | ok value => simp [lift, Except.map]

variable {count : ℕ} {item : List α → Reader ε α} {encode : α → Bytes}

theorem take_eq_ok_iff : take count failure bytes = .ok (front, rest) ↔ bytes = front ++ rest ∧ front.length = count := by
  rw [take]
  constructor
  · intro took
    split at took
    · cases took
    · next long =>
      rw [Except.ok.injEq, Prod.mk.injEq] at took
      obtain ⟨rfl, rfl⟩ := took
      exact ⟨(List.take_append_drop count bytes).symm, List.length_take_of_le (by omega)⟩
  · rintro ⟨rfl, rfl⟩
    rw [if_neg (by rw [List.length_append]; omega), List.take_left, List.drop_left]

/-! ## Readers that take bytes off the front -/

/-- What a reader leaves are the last of the bytes. -/
def Consumes (reader : Reader ε α) : Prop := ∀ bytes value rest, reader bytes = .ok (value, rest) → rest <:+ bytes

theorem consumes_pure (value : α) : Consumes (pure value : Reader ε α) := by
  intro bytes other rest read
  obtain ⟨-, rfl⟩ := pure_eq_ok_iff.mp read
  exact List.suffix_rfl

theorem consumes_fail (failure : ε) : Consumes (fail failure : Reader ε α) := nofun

theorem Consumes.bind (first : Consumes reader) (second : ∀ value, Consumes (next value)) : Consumes (reader >>= next) := by
  intro bytes other rest read
  obtain ⟨value, middle, one, two⟩ := bind_eq_ok_iff.mp read
  exact (second value middle other rest two).trans (first bytes value middle one)

theorem consumes_refuse (bad : Bool) (failure : ε) : Consumes (refuse bad failure) := by
  intro bytes answer rest read
  obtain ⟨-, rfl⟩ := refuse_eq_ok_iff.mp read
  exact List.suffix_rfl

theorem consumes_lift (answer : Except ε α) : Consumes (lift answer) := by
  intro bytes value rest read
  obtain ⟨-, rfl⟩ := lift_eq_ok_iff.mp read
  exact List.suffix_rfl

theorem consumes_remaining : Consumes (remaining : Reader ε ℕ) := by
  intro bytes count rest read
  cases read
  exact List.suffix_rfl

theorem consumes_take (count : ℕ) (short : ε) : Consumes (take count short) := by
  intro bytes front rest read
  obtain ⟨rfl, -⟩ := take_eq_ok_iff.mp read
  exact List.suffix_append front rest

theorem Consumes.times (one : Consumes reader) (count : ℕ) : Consumes (times reader count) := by
  induction count with
  | zero => exact consumes_pure []
  | succ count ih =>
    apply one.bind
    intro first
    apply ih.bind
    intro others
    exact consumes_pure _

theorem consumes_more (one : ∀ items, Consumes (item items)) (count : ℕ) (items : List α) :
    Consumes (more item count items) := by
  induction count generalizing items with
  | zero => exact consumes_pure items
  | succ count ih =>
    apply (one items).bind
    intro next
    exact ih _

/-! ## Bytes that spell a value -/

/-- A reader takes just these bytes for a value. -/
def Spells (reader : Reader ε α) (front : Bytes) (value : α) : Prop := ∀ rest, reader (front ++ rest) = .ok (value, rest)

theorem spells_pure (value : α) : Spells (pure value : Reader ε α) [] value := fun _ => rfl

theorem Spells.bind (first : Spells reader front value) (second : Spells (next value) back other) :
    Spells (reader >>= next) (front ++ back) other := by
  intro rest
  rw [bind_eq_ok_iff, List.append_assoc]
  exact ⟨value, back ++ rest, first _, second rest⟩

/-- A step may read nothing. -/
theorem Spells.after (first : Spells reader [] value) (second : Spells (next value) back other) :
    Spells (reader >>= next) back other :=
  first.bind second

/-- The last of some steps may read no more. -/
theorem Spells.bind_pure (first : Spells reader front value) (second : Spells (next value) [] other) :
    Spells (reader >>= next) front other := by
  have both := first.bind second
  rwa [List.append_nil] at both

theorem spells_refuse {bad : Bool} (good : bad = false) : Spells (refuse bad failure) [] () := by
  subst good
  exact spells_pure ()

theorem spells_take (sized : front.length = count) : Spells (take count failure) front front :=
  fun _ => take_eq_ok_iff.mpr ⟨rfl, sized⟩

/-- Bytes that spell values differ where these do, and before anything else behind them. -/
theorem Spells.inj {front' rest' : Bytes} {value' : α} (spelled : Spells reader front value)
    (spelled' : Spells reader front' value')
    (same : front ++ rest = front' ++ rest') : value = value' ∧ rest = rest' := by
  have read := spelled rest
  rw [same, spelled' rest', Except.ok.injEq, Prod.mk.injEq] at read
  exact ⟨read.1.symm, read.2.symm⟩

/-- Values that are spelled without their number are told apart where each of them takes some bytes. -/
theorem spells_flatMap_inj (some_ : ∀ value, encode value ≠ []) {values others : List α}
    (each : ∀ value ∈ values, Spells reader (encode value) value)
    (each' : ∀ value ∈ others, Spells reader (encode value) value)
    (same : values.flatMap encode = others.flatMap encode) : values = others := by
  induction values generalizing others with
  | nil =>
    cases others with
    | nil => rfl
    | cons other others =>
      rw [List.flatMap_nil, List.flatMap_cons, eq_comm, List.append_eq_nil_iff] at same
      exact absurd same.1 (some_ other)
  | cons value values ih =>
    cases others with
    | nil =>
      rw [List.flatMap_nil, List.flatMap_cons, List.append_eq_nil_iff] at same
      exact absurd same.1 (some_ value)
    | cons other others =>
      rw [List.flatMap_cons, List.flatMap_cons] at same
      obtain ⟨rfl, tails⟩ := (each value List.mem_cons_self).inj (each' other List.mem_cons_self) same
      rw [ih (fun value mem => each value (List.mem_cons_of_mem _ mem)) (fun value mem =>
        each' value (List.mem_cons_of_mem _ mem)) tails]

/-- Items that are spelled one behind the other. -/
theorem spells_times {values : List α} (each : ∀ value ∈ values, Spells reader (encode value) value) :
    Spells (times reader values.length) (values.flatMap encode) values := by
  induction values with
  | nil => exact spells_pure []
  | cons value values ih =>
    rw [List.flatMap_cons, List.length_cons, times]
    apply (each value List.mem_cons_self).bind
    exact (ih fun other mem => each other (List.mem_cons_of_mem _ mem)).bind_pure (spells_pure _)

theorem times_eq_ok {values : List α} (read : times reader count bytes = .ok (values, rest)) :
    values.length = count ∧ ∀ value ∈ values, ∃ before after, reader before = .ok (value, after) := by
  induction count generalizing bytes values with
  | zero =>
    obtain ⟨rfl, -⟩ := pure_eq_ok_iff.mp read
    exact ⟨rfl, nofun⟩
  | succ count ih =>
    obtain ⟨first, middle, one, read⟩ := bind_eq_ok_iff.mp read
    obtain ⟨others, last, more, read⟩ := bind_eq_ok_iff.mp read
    obtain ⟨rfl, rfl⟩ := pure_eq_ok_iff.mp read
    obtain ⟨counted, each⟩ := ih more
    refine ⟨by rw [List.length_cons, counted], fun value mem => ?_⟩
    obtain rfl | mem := List.mem_cons.mp mem
    · exact ⟨bytes, middle, one⟩
    · exact each value mem

/-- What each item keeps, all of them have. -/
theorem more_eq_ok (kept : List α → Prop) {items found : List α}
    (step : ∀ items bytes value rest, kept items → item items bytes = .ok (value, rest) → kept (items ++ [value]))
    (before : kept items) (read : more item count items bytes = .ok (found, rest)) :
    kept found ∧ found.length = items.length + count := by
  induction count generalizing bytes items with
  | zero =>
    obtain ⟨rfl, -⟩ := pure_eq_ok_iff.mp read
    exact ⟨before, rfl⟩
  | succ count ih =>
    obtain ⟨value, middle, one, read⟩ := bind_eq_ok_iff.mp read
    obtain ⟨kept_, counted⟩ := ih (step items bytes value middle before one) read
    refine ⟨kept_, ?_⟩
    rw [counted, List.length_append, List.length_singleton]
    omega

theorem spells_more {items values : List α}
    (each : ∀ front value back, values = front ++ value :: back → Spells (item (items ++ front)) (encode value) value) :
    Spells (more item values.length items) (values.flatMap encode) (items ++ values) := by
  induction values generalizing items with
  | nil =>
    rw [List.append_nil]
    exact spells_pure items
  | cons value values ih =>
    have first := each [] value values rfl
    rw [List.append_nil] at first
    rw [List.flatMap_cons, List.length_cons, more, List.append_cons]
    apply first.bind
    apply ih
    intro front other back split
    rw [List.append_assoc]
    exact each (value :: front) other back (by rw [split, List.cons_append])

end Reader

end Muser
