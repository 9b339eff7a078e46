import Muser.Sessions.Calls
import Muser.Lib.Runs

/-! # What a step does to the registry

Most steps are about files. Those that touch the registry do one of its operations, and each of these
touches one session.
-/

namespace Muser.Sessions

namespace Store

variable {outside : Outside} {store after : Store} {action : Action} {outcome : Option Outcome}

/-- The registry after a step. -/
inductive Change (outside : Outside) (store : Store) : Action → Registry → Prop
  | kept {action : Action} : Change outside store action store.registry
  | created {id : String} {after : Registry} (is : store.registry.create id = .ok after) :
      Change outside store (.call (.create id)) after
  | deleted {id : String} {found : Bool} {after : Registry} (is : store.registry.delete id = .ok (found, after)) :
      Change outside store (.call (.delete id)) after
  | begun {id key : String} {revision : ℕ} {hash : Hash} {mutation : BeginMutation} {after : Registry}
      (is : store.registry.begin id revision key hash = .ok (mutation, after)) :
      Change outside store (.call (.begin id revision key hash)) after
  | aborted {id : String} : Change outside store (.call (.abort id)) (store.registry.abort id)
  | committed {id key : String} {revision next : ℕ} {hash : Hash} {bundle : SessionBundle} {result : CachedGeneration}
      {after : Registry} (valid : validateBundle outside.replayPlan bundle id = .ok ())
      (is : store.registry.commit id revision key hash bundle result = .ok (next, after)) :
      Change outside store (.call (.commit id revision key hash bundle result)) after
  | saved {index : ℕ} {chance : Chance} {id : String} (at_ : store.pending[index]? = some (.noteSaved id)) :
      Change outside store (.resume index chance) (store.registry.markSaved id)
  | restored {index : ℕ} {chance : Chance} {id : String} {bundle : SessionBundle} {after : Registry}
      (at_ : store.pending[index]? = some (.installRestored id bundle)) (is : store.registry.restore id bundle = .ok after) :
      Change outside store (.resume index chance) after
  | removed {index : ℕ} {chance : Chance} {reconciles : Bool} {id transferId : String} {record : Record}
      (at_ : store.pending[index]? = some (.removeSource reconciles id transferId))
      (found : store.registry.lookup id = some record) (idle : record.busy = false)
      (done : (store.removeSource chance id).1 = .ok true) :
      Change outside store (.resume index chance) (store.registry.erase id)
  | imported {index : ℕ} {chance : Chance} {record : TransferRecord} {bundle : SessionBundle}
      (at_ : store.pending[index]? = some (.installImported record bundle))
        (admits : store.registry.admitsImport bundle = .ok ())
      (done : chance.write = .done) :
      Change outside store (.resume index chance) (store.registry.insert bundle.sessionId (.ofBundle bundle))
  | crashed : Change outside store .crash ∅

theorem settle_cases {result : Except String (Answer × Registry)} {outcome : Outcome}
    (is : store.settle result = (outcome, after)) :
    (∃ failure, result = .error failure ∧ outcome = .ends (.error failure) ∧ after = store) ∨
      ∃ answer registry, result = .ok (answer, registry) ∧ outcome = .ends (.ok answer) ∧
        after = { store with registry := registry } := by
  cases result with
  | error failure =>
    cases is
    exact .inl ⟨failure, rfl, rfl, rfl⟩
  | ok both =>
    cases is
    exact .inr ⟨both.1, both.2, rfl, rfl, rfl⟩

variable {id key : String} {revision : ℕ} {hash : Hash}

/-- A call that begins a mutation answers with what the registry answers. -/
theorem start_begin {outcome : Outcome} (is : store.start outside (.begin id revision key hash) = (outcome, after)) :
    ((∃ failure, outcome = .ends (.error failure)) ∧ after = store) ∨
      ∃ mutation registry, store.registry.begin id revision key hash = .ok (mutation, registry) ∧
        outcome = .ends (.ok (.begun mutation)) ∧ after = { store with registry := registry } := by
  rcases settle_cases is with ⟨failure, -, rfl, rfl⟩ | ⟨answer, registry, ran, rfl, rfl⟩
  · exact .inl ⟨⟨failure, rfl⟩, rfl⟩
  · simp only [bind_eq_ok_iff] at ran
    obtain ⟨-, -, -, -, ⟨mutation, registry'⟩, begun, same⟩ := ran
    cases same
    exact .inr ⟨mutation, registry', begun, rfl, rfl⟩

variable {result : CachedGeneration} {bundle : SessionBundle} {chance : Chance} {record : Record}

theorem start_commit
    {outcome : Outcome} (is : store.start outside (.commit id revision key hash bundle result) = (outcome, after)) :
    ((∃ failure, outcome = .ends (.error failure)) ∧ after = store) ∨
      ∃ next registry, validateBundle outside.replayPlan bundle id = .ok () ∧
        store.registry.commit id revision key hash bundle result = .ok (next, registry) ∧
        outcome = .ends (.ok (.committed next)) ∧ after = { store with registry := registry } := by
  rcases settle_cases is with ⟨failure, -, rfl, rfl⟩ | ⟨answer, registry, ran, rfl, rfl⟩
  · exact .inl ⟨⟨failure, rfl⟩, rfl⟩
  · simp only [bind_eq_ok_iff] at ran
    obtain ⟨⟨⟩, valid, ⟨next, registry'⟩, committed, same⟩ := ran
    cases same
    exact .inr ⟨next, registry', valid, committed, rfl, rfl⟩

@[simp] theorem registry_keep (outcome : Outcome) (store : Store) : (keep outcome store).registry = store.registry := by
  cases outcome <;> rfl

@[simp] theorem files_keep (outcome : Outcome) (store : Store) : (keep outcome store).files = store.files := by
  cases outcome <;> rfl

theorem start_change (call : Call) : Change outside store (.call call) (store.start outside call).2.registry := by
  cases call with
  | create id =>
    generalize ran : store.start outside (.create id) = both
    rcases settle_cases ran with ⟨failure, -, -, same⟩ | ⟨answer, registry, is, -, same⟩
    · rw [same]
      exact .kept
    · simp only [bind_eq_ok_iff] at is
      obtain ⟨-, -, created, is, rest⟩ := is
      cases rest
      rw [same]
      exact .created is
  | delete id =>
    generalize ran : store.start outside (.delete id) = both
    rcases settle_cases ran with ⟨failure, -, -, same⟩ | ⟨answer, registry, is, -, same⟩
    · rw [same]
      exact .kept
    · simp only [bind_eq_ok_iff] at is
      obtain ⟨-, -, ⟨found, deleted⟩, is, rest⟩ := is
      cases rest
      rw [same]
      exact .deleted is
  | begin id revision key hash =>
    generalize ran : store.start outside (.begin id revision key hash) = both
    rcases start_begin ran with ⟨-, same⟩ | ⟨mutation, registry, is, -, same⟩
    · rw [same]
      exact .kept
    · rw [same]
      exact .begun is
  | abort id => exact .aborted
  | commit id revision key hash bundle result =>
    generalize ran : store.start outside (.commit id revision key hash bundle result) = both
    rcases start_commit ran with ⟨-, same⟩ | ⟨next, registry, valid, is, -, same⟩
    · rw [same]
      exact .kept
    · rw [same]
      exact .committed valid is
  | _ => exact .kept

theorem removeSource_cases {id : String} {result : Except String Bool}
    (is : store.removeSource chance id = (result, after)) :
    (after.registry = store.registry ∧ result ≠ .ok true) ∨
      (∃ record, store.registry.lookup id = some record ∧ record.busy = false ∧ after.registry = store.registry.erase id ∧
        result = .ok true) := by
  rw [removeSource] at is
  split at is
  · cases is
    exact .inl ⟨rfl, nofun⟩
  · next record found =>
    split at is
    · cases is
      exact .inl ⟨rfl, nofun⟩
    · next idle =>
      have quiet : record.busy = false := by simpa using idle
      dsimp only at is
      split at is
      · cases is
        exact .inr ⟨record, found, quiet, rfl, rfl⟩
      · split at is
        · cases is
          exact .inl ⟨rfl, nofun⟩
        · cases is
          exact .inl ⟨rfl, nofun⟩
        · cases is
          exact .inr ⟨record, found, quiet, rfl, rfl⟩

theorem removeSource_pending (store : Store) (others : List Pending) (chance : Chance) (id : String) :
    (removeSource { store with pending := others } chance id).1 = (store.removeSource chance id).1 := by
  rw [removeSource, removeSource]
  cases store.registry.lookup id with
  | none => rfl
  | some record =>
    dsimp only
    split
    · rfl
    · split
      · rfl
      · cases chance.write <;> rfl

/-- The registry does not know which calls are under way. -/
theorem resume_change {index : ℕ} {pending : Pending} (at_ : store.pending[index]? = some pending)
    {others : List Pending} :
    Change outside store (.resume index chance)
      (({ store with pending := others } : Store).resume outside chance pending).2.registry := by
  cases pending with
  | noteSaved id => exact .saved at_
  | installRestored id bundle =>
    generalize ran : Store.resume outside { store with pending := others } chance (.installRestored id bundle) = both
    rcases settle_cases ran with ⟨failure, -, -, same⟩ | ⟨answer, registry, is, -, same⟩
    · rw [same]
      exact .kept
    · cases restored : store.registry.restore id bundle with
      | error failure =>
        rw [restored] at is
        cases is
      | ok found =>
        rw [restored] at is
        cases is
        rw [same]
        exact .restored at_ restored
  | removeSource reconciles id transferId =>
    rw [Store.resume]
    generalize ran : removeSource { store with pending := others } chance id = both
    obtain ⟨result, after⟩ := both
    rcases removeSource_cases ran with ⟨same, -⟩ | ⟨record, found, idle, same, rfl⟩
    · show Change outside store _ after.registry
      rw [same]
      exact .kept
    · show Change outside store _ after.registry
      rw [same]
      exact .removed at_ found idle (by rw [← removeSource_pending store others, ran])
  | checkSource id transferId | checkSession record | checkPayload record =>
    rw [Store.resume]
    split
    · exact .kept
    · split
      · exact .kept
      · exact .kept
  | movePayload record path =>
    rw [Store.resume]
    split
    · exact .kept
    · split
      · dsimp only
        split
        · exact .kept
        · exact .kept
        · exact .kept
      · exact .kept
  | installImported record bundle =>
    rw [Store.resume]
    split
    · exact .kept
    · next admits =>
      dsimp only
      split
      · next done => exact .imported at_ admits done
      · exact .kept
  | _ => exact .kept

/-- What a step does to the registry. -/
theorem step_change (is : store.step outside action = some (outcome, after)) :
    Change outside store action after.registry := by
  cases action with
  | call call =>
    cases is
    rw [registry_keep]
    exact start_change call
  | resume index chance =>
    obtain ⟨pending, at_, is⟩ := Option.map_eq_some_iff.mp is
    cases is
    rw [registry_keep]
    exact resume_change at_
  | interrupt index failure =>
    obtain ⟨pending, at_, is⟩ := Option.map_eq_some_iff.mp is
    cases is
    rw [registry_keep]
    exact .kept
  | upload path content =>
    cases is
    exact .kept
  | crash =>
    cases is
    exact .crashed

/-- A step that takes a session away, or puts another bundle in its place. -/
def replaces (store : Store) (id : String) : Action → Prop
  | .call (.delete other) => other = id ∧ (store.registry.delete id).isOk
  | .resume index chance =>
    match store.pending[index]? with
    | some (.installRestored other bundle) => other = id ∧ (store.registry.restore id bundle).isOk
    | some (.removeSource _ other _) => other = id ∧ (store.removeSource chance id).1 = .ok true
    | some (.installImported _ bundle) =>
      bundle.sessionId = id ∧ (store.registry.admitsImport bundle).isOk ∧ chance.write = .done
    | _ => False
  | .crash => True
  | _ => False

/-- A step that puts a bundle from disk in the place of a session, or forgets all sessions. -/
def restores (store : Store) (id : String) : Action → Prop
  | .resume index _ =>
    match store.pending[index]? with
    | some (.installRestored other bundle) => other = id ∧ (store.registry.restore id bundle).isOk
    | _ => False
  | .crash => True
  | _ => False

/-- The record of a session after a step. -/
inductive Fate (outside : Outside) (store : Store) (id : String) (record : Record) : Action → Option Record → Prop
  | kept {action : Action} (saved : Bool) : Fate outside store id record action (some { record with saved := saved })
  | begun {key : String} {hash : Hash} (unknown : record.idempotency.lookup key = none) (idle : record.busy = false) :
      Fate outside store id record (.call (.begin id record.revision key hash)) (some { record with busy := true })
  | aborted : Fate outside store id record (.call (.abort id)) (some { record with busy := false })
  | committed {key : String} {hash : Hash} {bundle : SessionBundle} {result : CachedGeneration}
      (valid : validateBundle outside.replayPlan bundle id = .ok ()) (busy : record.busy = true)
      (done : (store.registry.commit id record.revision key hash bundle result).isOk) :
      Fate outside store id record (.call (.commit id record.revision key hash bundle result))
        (some ⟨record.revision + 1, bundle.contextEpoch, some { bundle with revision := record.revision + 1 }, false, false,
          Registry.remember record.idempotency key ⟨record.revision, hash, { result with revision := record.revision + 1 }⟩⟩)
  | replaced {action : Action} {other : Option Record} (replaces : store.replaces id action)
      (idle : ¬store.restores id action → record.busy = false) : Fate outside store id record action other

theorem Fate.same {id : String} {action : Action} : Fate outside store id record action (some record) :=
  .kept record.saved

/-- What a step does to a session. -/
theorem session_step {id : String} (is : store.step outside action = some (outcome, after))
    (found : store.registry.lookup id = some record) :
    Fate outside store id record action (after.registry.lookup id) := by
  have change := step_change is
  generalize after.registry = registry at change
  cases change with
  | kept =>
    rw [found]
    exact .same
  | @created other _ is =>
    obtain ⟨absent, rfl⟩ := Registry.create_ok is
    rw [Table.lookup_insert_fresh absent found]
    exact .same
  | @deleted other _ _ is =>
    obtain ⟨idle, rfl⟩ := Registry.delete_ok is
    rw [Table.lookup_erase_eq]
    split
    · next same =>
      subst same
      refine .replaced ⟨rfl, by rw [is]; rfl⟩ fun _ => ?_
      simpa only [found, Option.any_some] using idle
    · rw [found]
      exact .same
  | @begun other _ _ _ _ _ is =>
    obtain ⟨record', found', ⟨_, _, _, _, _, rfl⟩ | ⟨unknown, idle, same, _, rfl⟩⟩ := Registry.begin_ok is
    · rw [found]
      exact .same
    · rw [Table.lookup_insert_eq]
      split
      · next here =>
        subst here
        cases found.symm.trans found'
        subst same
        exact .begun unknown idle
      · rw [found]
        exact .same
  | @aborted other =>
    rw [Registry.lookup_abort]
    split
    · next here =>
      subst here
      rw [found]
      exact .aborted
    · rw [found]
      exact .same
  | @committed other used revision next hash bundle result _ valid is =>
    obtain ⟨record', found', busy, same, rfl, rfl⟩ := Registry.commit_ok is
    rw [Table.lookup_insert_eq]
    split
    · next here =>
      subst here
      cases found.symm.trans found'
      subst same
      exact .committed valid busy (by rw [is]; rfl)
    · rw [found]
      exact .same
  | @saved _ _ other _ =>
    rw [Registry.lookup_markSaved]
    split
    · next here =>
      subst here
      rw [found]
      exact .kept true
    · rw [found]
      exact .same
  | @restored index _ other bundle _ at_ is =>
    obtain rfl := Registry.restore_ok is
    rw [Table.lookup_insert_eq]
    split
    · next here =>
      subst here
      refine .replaced ?_ fun spared => absurd ?_ spared
      · rw [replaces, at_]
        exact ⟨rfl, by rw [is]; rfl⟩
      · rw [restores, at_]
        exact ⟨rfl, by rw [is]; rfl⟩
    · rw [found]
      exact .same
  | @removed index _ _ other record' _ at_ found' idle done =>
    rw [Table.lookup_erase_eq]
    split
    · next here =>
      subst here
      cases found.symm.trans found'
      refine .replaced ?_ fun _ => idle
      rw [replaces, at_]
      exact ⟨rfl, done⟩
    · rw [found]
      exact .same
  | @imported index _ _ bundle at_ admits done =>
    rw [Table.lookup_insert_eq]
    split
    · next here =>
      subst here
      refine .replaced ?_ fun _ => ?_
      · rw [replaces, at_]
        exact ⟨rfl, by rw [admits]; rfl, done⟩
      · simpa only [found, Option.any_some] using Registry.admitsImport_ok admits
    · rw [found]
      exact .same
  | crashed => exact .replaced trivial fun spared => absurd trivial spared

/-- A step among those that are allowed. -/
def Steps (outside : Outside) (allowed : Store → Action → Prop) (store after : Store) : Prop :=
  ∃ action outcome, allowed store action ∧ store.step outside action = some (outcome, after)

/-- A begin, as a step. -/
theorem step_begin (is : store.step outside (.call (.begin id revision key hash)) = some (outcome, after)) :
    ((∃ failure, outcome = some (.ends (.error failure))) ∧ after = store) ∨
      ∃ mutation registry, store.registry.begin id revision key hash = .ok (mutation, registry) ∧
        outcome = some (.ends (.ok (.begun mutation))) ∧ after = { store with registry := registry } := by
  generalize ran : store.start outside (.begin id revision key hash) = both
  obtain ⟨began, middle⟩ := both
  simp only [step, ran, Option.some.injEq, Prod.mk.injEq] at is
  obtain ⟨rfl, rfl⟩ := is
  rcases start_begin ran with ⟨⟨failure, rfl⟩, rfl⟩ | ⟨mutation, registry, begun, rfl, rfl⟩
  · exact .inl ⟨⟨failure, rfl⟩, rfl⟩
  · exact .inr ⟨mutation, registry, begun, rfl, rfl⟩

theorem step_commit
    (is : store.step outside (.call (.commit id revision key hash bundle result)) = some (outcome, after)) :
    ((∃ failure, outcome = some (.ends (.error failure))) ∧ after = store) ∨
      ∃ next registry, store.registry.commit id revision key hash bundle result = .ok (next, registry) ∧
        outcome = some (.ends (.ok (.committed next))) ∧ after = { store with registry := registry } := by
  generalize ran : store.start outside (.commit id revision key hash bundle result) = both
  obtain ⟨answer, middle⟩ := both
  simp only [step, ran, Option.some.injEq, Prod.mk.injEq] at is
  obtain ⟨rfl, rfl⟩ := is
  rcases start_commit ran with ⟨⟨failure, rfl⟩, rfl⟩ | ⟨next, registry, -, committed, rfl, rfl⟩
  · exact .inl ⟨⟨failure, rfl⟩, rfl⟩
  · exact .inr ⟨next, registry, committed, rfl, rfl⟩

/-- Do some actions one after another. -/
def follow (outside : Outside) (store : Store) (actions : List Action) : Option Store :=
  actions.foldlM (fun store action => (store.step outside action).map Prod.snd) store

theorem follow_run {allowed : Store → Action → Prop} {actions : List Action}
    (every : ∀ action ∈ actions, ∀ store, allowed store action) (is : store.follow outside actions = some after) :
    Relation.ReflTransGen (Steps outside allowed) store after := by
  refine foldlM_run (fun action mem store after taken => ?_) is
  obtain ⟨⟨outcome, _⟩, is, rfl⟩ := Option.map_eq_some_iff.mp taken
  exact ⟨action, outcome, every action mem store, is⟩

end Store

end Muser.Sessions
