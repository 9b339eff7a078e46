import Muser.Sessions.Effects

/-! # A committed mutation is not started again

What a record remembers of a committed mutation: its revision has gone past, and what the replay table
holds under the mutation's key is the mutation itself, or one that was committed later. The table holds
the mutation until it is full, or until something else is committed under the same key.
-/

namespace Muser.Sessions

open Relation Engine

/-- A commit that drops what the replay table holds under a key: it finds the table full, or it is made
under that key. -/
def Store.forgets (store : Store) (id key : String) : Store.Action → Prop
  | .call (.commit other revision used hash bundle result) =>
    other = id ∧ (store.registry.commit id revision used hash bundle result).isOk ∧
      (used = key ∨ (store.registry.lookup id).any fun record => maxReplays ≤ record.idempotency.entries.length)
  | _ => False

def Outcome.refused (outcome : Outcome) : Prop := ∃ failure, outcome = .ends (.error failure)

/-- What a record keeps of a mutation that was committed. -/
structure Record.Past (record : Record) (key : String) (entry : IdempotencyRecord) : Prop where
  later : entry.expectedRevision < record.revision
  under : ∀ found, record.idempotency.lookup key = some found → found = entry ∨
    entry.expectedRevision < found.expectedRevision

/-- A session has a record of which something is true. -/
def Store.Holds (store : Store) (id : String) (law : Record → Prop) : Prop :=
  ∃ record, store.registry.lookup id = some record ∧ law record

section Past

variable {outside : Outside} {store after : Store} {id key : String} {entry : IdempotencyRecord} {action : Store.Action}
  {outcome : Option Outcome}

theorem lookup_remember (replays : Table IdempotencyRecord) (used key : String) (entry : IdempotencyRecord) :
    (Registry.remember replays used entry).lookup key =
      if key = used then some entry else if maxReplays ≤ replays.entries.length then none else replays.lookup key := by
  rw [Registry.remember]
  split
  · rw [Table.lookup_insert_eq]
    rfl
  · rw [Table.lookup_insert_eq]

/-- The session still remembers the mutation after a step that does not replace it. -/
theorem past_step (is : store.step outside action = some (outcome, after)) (spared : ¬store.replaces id action)
    (past : store.Holds id (·.Past key entry)) : after.Holds id (·.Past key entry) := by
  obtain ⟨record, found, past⟩ := past
  have fate := Store.session_step is found
  cases arrives : after.registry.lookup id with
  | none =>
    rw [arrives] at fate
    cases fate with
    | replaced gone => exact absurd gone spared
  | some record' =>
    rw [arrives] at fate
    refine ⟨record', arrives, ?_⟩
    cases fate with
    | kept saved => exact ⟨past.later, past.under⟩
    | begun => exact ⟨past.later, past.under⟩
    | aborted => exact ⟨past.later, past.under⟩
    | committed =>
      refine ⟨Nat.lt_succ_of_lt past.later, fun entry' known => ?_⟩
      rw [lookup_remember] at known
      split at known
      · cases known
        exact .inr past.later
      · split at known
        · cases known
        · exact past.under entry' known
    | replaced gone => exact absurd gone spared

/-- The table keeps the mutation over a step that neither replaces the session nor drops the entry. -/
theorem known_step (is : store.step outside action = some (outcome, after)) (spared : ¬store.replaces id action)
    (remembered : ¬store.forgets id key action) (known : store.Holds id (·.idempotency.lookup key = some entry)) :
    after.Holds id (·.idempotency.lookup key = some entry) := by
  obtain ⟨record, found, known⟩ := known
  have fate := Store.session_step is found
  cases arrives : after.registry.lookup id with
  | none =>
    rw [arrives] at fate
    cases fate with
    | replaced gone => exact absurd gone spared
  | some record' =>
    rw [arrives] at fate
    refine ⟨record', arrives, ?_⟩
    cases fate with
    | kept saved => exact known
    | begun => exact known
    | aborted => exact known
    | committed _ _ done =>
      simp only [Store.forgets, true_and, not_and, not_or] at remembered
      obtain ⟨other, room⟩ := remembered done
      rw [found, Option.any_some, decide_eq_true_eq] at room
      rw [lookup_remember, if_neg (Ne.symm other), if_neg room]
      exact known
    | replaced gone => exact absurd gone spared

theorem past_run {later : Store}
    (run : ReflTransGen (Store.Steps outside fun store action => ¬store.replaces id action) store later)
    (past : store.Holds id (·.Past key entry)) : later.Holds id (·.Past key entry) := by
  refine kept_of_run (P := fun store : Store => store.Holds id (·.Past key entry)) ?_ run past
  rintro store after ⟨action, outcome, spared, is⟩
  exact past_step is spared

theorem known_run {later : Store}
    (run : ReflTransGen (Store.Steps outside fun store action => ¬store.replaces id action ∧
      ¬store.forgets id key action) store later)
    (known : store.Holds id (·.idempotency.lookup key = some entry)) :
    later.Holds id (·.idempotency.lookup key = some entry) := by
  refine kept_of_run (P := fun store : Store => store.Holds id (·.idempotency.lookup key = some entry)) ?_ run known
  rintro store after ⟨action, outcome, ⟨spared, remembered⟩, is⟩
  exact known_step is spared remembered

variable {revision next : ℕ} {hash : Hash}

/-- What a commit leaves in the session's record. -/
theorem holds_of_commit {bundle : SessionBundle} {result : CachedGeneration}
    (committed : store.step outside (.call (.commit id revision key hash bundle result)) =
      some (some (.ends (.ok (.committed next))), after)) :
    next = revision + 1 ∧ after.Holds id fun record =>
      record.revision = next ∧ record.idempotency.lookup key = some ⟨revision, hash, { result with revision := next }⟩ := by
  rcases Store.step_commit committed with ⟨⟨_, failed⟩, -⟩ | ⟨next', registry, is, same, rfl⟩
  · cases failed
  · cases same
    obtain ⟨record, found, -, rfl, rfl, rfl⟩ := Registry.commit_ok is
    refine ⟨rfl, _, AList.lookup_insert _, rfl, ?_⟩
    rw [lookup_remember, if_pos rfl]

/-- What a begin answers on a session. -/
theorem began_cases {record : Record} {began : Outcome} (found : store.registry.lookup id = some record)
    (is : store.step outside (.call (.begin id revision key hash)) = some (some began, after)) :
    began.refused ∨ (∃ entry, record.idempotency.lookup key = some entry ∧ entry.expectedRevision = revision ∧
        entry.requestSha256 = hash ∧ began = .ends (.ok (.begun (.replay entry.result)))) ∨
      (record.idempotency.lookup key = none ∧ record.busy = false ∧ record.revision = revision ∧
        began = .ends (.ok (.begun (.started record.bundle)))) := by
  rcases Store.step_begin is with ⟨⟨failure, same⟩, -⟩ | ⟨mutation, registry, begun, same, rfl⟩
  · cases same
    exact .inl ⟨failure, rfl⟩
  · cases same
    obtain ⟨record', found', fate⟩ := Registry.begin_ok begun
    cases found.symm.trans found'
    rcases fate with ⟨cached, known, same, same', rfl, -⟩ | ⟨unknown, idle, same, rfl, -⟩
    · exact .inr (.inl ⟨cached, known, same, same', rfl⟩)
    · exact .inr (.inr ⟨unknown, idle, same, rfl⟩)

/-- A committed mutation is replayed or refused, never started, for as long as the session is not taken
away or replaced. Its key stays bound to it until the full table is emptied. -/
theorem commit_at_most_once {first later : Store} {bundle : SessionBundle} {result : CachedGeneration}
    (committed : store.step outside (.call (.commit id revision key hash bundle result)) =
      some (some (.ends (.ok (.committed next))), first))
    (run : ReflTransGen (Store.Steps outside fun store action => ¬store.replaces id action) first later) :
    (∀ began last, later.step outside (.call (.begin id revision key hash)) = some (some began, last) →
      began.refused ∨ began = .ends (.ok (.begun (.replay { result with revision := next })))) ∧
    (ReflTransGen (Store.Steps outside fun store action => ¬store.replaces id action ∧
      ¬store.forgets id key action) first later →
      ∀ revision' hash', (revision' ≠ revision ∨ hash' ≠ hash) →
        ∀ began last, later.step outside (.call (.begin id revision' key hash')) = some (some began, last) →
          began.refused) := by
  obtain ⟨rfl, record, found, current, known⟩ := holds_of_commit committed
  have begins : first.Holds id (·.Past key ⟨revision, hash, { result with revision := revision + 1 }⟩) := by
    refine ⟨record, found, ?_, fun entry' known' => .inl (Option.some.inj (known'.symm.trans known))⟩
    show revision < record.revision
    omega
  have past := past_run run begins
  constructor
  · intro began last is
    obtain ⟨record', found', past⟩ := past
    rcases began_cases found' is with refused | ⟨entry', known', same, -, rfl⟩ | ⟨-, -, same, -⟩
    · exact .inl refused
    · rcases past.under entry' known' with rfl | later
      · exact .inr rfl
      · exact absurd (same ▸ later) (lt_irrefl revision)
    · exact absurd (same ▸ past.later) (lt_irrefl revision)
  · intro remembering revision' hash' differs began last is
    obtain ⟨record', found', known'⟩ := known_run remembering ⟨record, found, known⟩
    rcases began_cases found' is with refused | ⟨entry', known'', rfl, rfl, -⟩ | ⟨unknown, -, -, -⟩
    · exact refused
    · cases known'.symm.trans known''
      rcases differs with other | other
      · exact absurd rfl other
      · exact absurd rfl other
    · cases known'.symm.trans unknown

end Past

section Sample

open Store

def sampleKey (revision : ℕ) : String := "key-" ++ toString revision

def sampleResult : CachedGeneration := ⟨"t", 1, 1, "stop", 7, 0, [42], [42]⟩

def sampleBegin (revision : ℕ) : Action := .call (.begin "s" revision (sampleKey revision) [1])

def sampleCommit (revision : ℕ) : Action :=
  .call (.commit "s" revision (sampleKey revision) [1] (oneTokenBundle "s") sampleResult)

/-- Sixty-four mutations after the first, each under a key of its own. -/
def sampleMutations : List Action := (List.range' 1 64).flatMap fun revision => [sampleBegin revision, sampleCommit revision]

def Outcome.hasCommitted (next : ℕ) : Option Outcome → Bool
  | some (.ends (.ok (.committed revision))) => revision == next
  | _ => false

def Outcome.hasStarted : Option Outcome → Bool
  | some (.ends (.ok (.begun (.started _)))) => true
  | _ => false

theorem Outcome.hasCommitted_eq {next : ℕ} {outcome : Option Outcome} (is : hasCommitted next outcome) :
    outcome = some (.ends (.ok (.committed next))) := by
  rw [hasCommitted.eq_def] at is
  split at is
  · rw [eq_of_beq is]
  · cases is

theorem Outcome.hasStarted_eq {outcome : Option Outcome} (is : hasStarted outcome) :
    ∃ bundle, outcome = some (.ends (.ok (.begun (.started bundle)))) := by
  rw [hasStarted.eq_def] at is
  split at is
  · exact ⟨_, rfl⟩
  · cases is

theorem sample_spares {action : Action} (mem : action ∈ sampleMutations) (store : Store) : ¬store.replaces "s" action := by
  obtain ⟨revision, -, mem⟩ := List.mem_flatMap.mp mem
  rcases List.mem_pair.mp mem with rfl | rfl
  · exact id
  · exact id

set_option maxRecDepth 8192 in
/-- After sixty-five commits the key of the first may begin another mutation. -/
theorem sample_run : ∃ store first later last bundle,
    ReflTransGen (Steps plainOutside fun _ _ => True) Store.new store ∧
      store.step plainOutside (sampleCommit 0) = some (some (.ends (.ok (.committed 1))), first) ∧
      first.follow plainOutside sampleMutations = some later ∧
      later.step plainOutside (.call (.begin "s" 65 (sampleKey 0) [9])) =
        some (some (.ends (.ok (.begun (.started bundle)))), last) ∧
      ∃ middle next, first.follow plainOutside [sampleBegin 1] = some middle ∧
        (middle.registry.lookup "s").all (·.idempotency.entries.length < maxReplays) = true ∧
        middle.follow plainOutside [sampleCommit 1] = some next := by
  have ran : ((Store.new.follow plainOutside [.call (.create "s"), sampleBegin 0]).any fun store =>
      (store.step plainOutside (sampleCommit 0)).any fun both => Outcome.hasCommitted 1 both.1 &&
        (both.2.follow plainOutside sampleMutations).any fun later =>
          ((later.step plainOutside (.call (.begin "s" 65 (sampleKey 0) [9]))).any fun both => Outcome.hasStarted both.1) &&
            (both.2.follow plainOutside [sampleBegin 1]).any fun middle =>
              (middle.registry.lookup "s").all (·.idempotency.entries.length < maxReplays) &&
                (middle.follow plainOutside [sampleCommit 1]).isSome) := by
    decide +kernel
  simp only [Option.any_eq_true, Bool.and_eq_true, Option.isSome_iff_exists] at ran
  obtain ⟨store, opened, ⟨outcome, first⟩, committed, answer, later, mutated, ⟨⟨began, last⟩, begun, started⟩, middle,
    goes, room, next, done⟩ := ran
  obtain rfl := Outcome.hasCommitted_eq answer
  obtain ⟨bundle, rfl⟩ := Outcome.hasStarted_eq started
  exact ⟨store, first, later, last, bundle, follow_run (fun _ _ _ => trivial) opened, committed, mutated, begun,
    middle, next, goes, room, done⟩

/-- The key of a committed mutation is not bound to it for good: the sixty-fifth commit empties the table. -/
theorem emptied_table_starts_again : ¬∀ (store first later : Store) (id key : String) (revision next : ℕ) (hash : Hash)
    (bundle : SessionBundle) (result : CachedGeneration),
    ReflTransGen (Store.Steps plainOutside fun _ _ => True) Store.new store →
    store.step plainOutside (.call (.commit id revision key hash bundle result)) =
      some (some (.ends (.ok (.committed next))), first) →
    ReflTransGen (Store.Steps plainOutside fun store action => ¬store.replaces id action) first later →
    ∀ revision' hash', (revision' ≠ revision ∨ hash' ≠ hash) →
      ∀ began last, later.step plainOutside (.call (.begin id revision' key hash')) = some (some began, last) →
        began.refused := by
  intro claim
  obtain ⟨store, first, later, last, bundle, reached, committed, mutated, begun, -⟩ := sample_run
  have run := follow_run (fun _ mem store => sample_spares mem store) mutated
  obtain ⟨_, refused⟩ := claim store first later _ _ _ _ _ _ _ reached committed run 65 [9] (.inl (by decide)) _ _ begun
  cases refused

/-- The first mutation is retried after sixty-four others, and its key is used otherwise after one. -/
theorem commit_at_most_once_sample : ∃ first later middle next : Store,
    first.follow plainOutside sampleMutations = some later ∧
    (∀ (began : Outcome) last, later.step plainOutside (sampleBegin 0) = some (some began, last) →
      began.refused ∨ began = .ends (.ok (.begun (.replay { sampleResult with revision := 1 })))) ∧
    first.follow plainOutside [sampleBegin 1] = some middle ∧ middle.follow plainOutside [sampleCommit 1] = some next ∧
    ∀ (began : Outcome) last, next.step plainOutside (.call (.begin "s" 65 (sampleKey 0) [9])) = some (some began, last) →
      began.refused := by
  obtain ⟨store, first, later, -, -, -, committed, mutated, -, middle, next, goes, room, done⟩ := sample_run
  have remembers : ReflTransGen (Steps plainOutside fun store action => ¬store.replaces "s" action ∧
    ¬store.forgets "s" (sampleKey 0) action)
      first middle :=
    follow_run (fun _ mem _ => by rw [List.mem_singleton.mp mem]; exact ⟨id, id⟩) goes
  have kept : ¬middle.forgets "s" (sampleKey 0) (sampleCommit 1) := by
    rintro ⟨-, -, used | full⟩
    · exact absurd used (by decide)
    · obtain ⟨record, found, full⟩ := (Option.any_eq_true _ _).mp full
      rw [found, Option.all_some, decide_eq_true_eq] at room
      exact absurd (of_decide_eq_true full) (Nat.not_le.mpr room)
  obtain ⟨⟨outcome, next⟩, taken, rfl⟩ : ∃ both, middle.step plainOutside (sampleCommit 1) = some both ∧ both.2 = next := by
    simpa [follow] using done
  obtain ⟨once, -⟩ := commit_at_most_once committed (follow_run (fun _ mem store => sample_spares mem store) mutated)
  have remembers := remembers.tail ⟨sampleCommit 1, outcome, ⟨id, kept⟩, taken⟩
  have spared : ReflTransGen (Steps plainOutside fun store action => ¬store.replaces "s" action) first next := by
    refine ReflTransGen.mono (fun store after step => ?_) _ _ remembers
    obtain ⟨action, outcome, both, is⟩ := step
    exact ⟨action, outcome, both.1, is⟩
  obtain ⟨-, bound⟩ := commit_at_most_once committed spared
  exact ⟨first, later, middle, next, mutated, once, goes, done, bound remembers 65 [9] (.inl (by decide))⟩

end Sample

end Muser.Sessions
