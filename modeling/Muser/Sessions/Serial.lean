import Muser.Sessions.Replays

/-! # Mutations of a session, one at a time

Clients of a store, beside it: who was told that its mutation started, and has not ended it yet. The
lease of a session is one flag without a name on it, so that it is the order of the calls that makes it
the lease of one client. A bundle put in the place of a session from disk breaks that order when a
mutation is under way: everything else waits for the flag.
-/

namespace Muser.Sessions

open Relation

/-- A mutation that a client was told has started. -/
structure Mutation where
  id : String
  revision : ℕ
  bundle : Option SessionBundle
  /-- Its commit was refused: all that is left is to abort it. -/
  failed : Bool

structure Serving where
  store : Store
  outstanding : List Mutation

/-- What happens at a store whose clients end what they began. -/
inductive Move where
  | act (action : Store.Action)
  | commit (index : ℕ) (key : String) (hash : Hash) (bundle : SessionBundle) (result : CachedGeneration)
  | abort (index : ℕ)

/-- An action that a client may take whatever it has begun. A crash takes the clients with it. -/
def Store.Action.free : Action → Bool
  | .call (.commit ..) => false
  | .call (.abort _) => false
  | .crash => false
  | _ => true

namespace Serving

/-- A store that has just been made, over the files of an earlier one. -/
def new (files : Files) : Serving := ⟨⟨∅, files, []⟩, []⟩

/-- The mutation that is started by an action. -/
def granted : Store.Action → Option Outcome → List Mutation
  | .call (.begin id revision _ _), some (.ends (.ok (.begun (.started bundle)))) => [⟨id, revision, bundle, false⟩]
  | _, _ => []

/-- A client commits what it began, and once; or it aborts it. -/
def step (outside : Outside) (serving : Serving) : Move → Option Serving
  | .act action =>
    if action.free then
      (serving.store.step outside action).map fun both => ⟨both.2, serving.outstanding ++ granted action both.1⟩
    else none
  | .commit index key hash bundle result =>
    match serving.outstanding[index]? with
    | none => none
    | some mutation =>
      if mutation.failed then none
      else (serving.store.step outside (.call (.commit mutation.id mutation.revision key hash bundle result))).map
        fun both =>
        match both.1 with
        | some (.ends (.ok _)) => ⟨both.2, serving.outstanding.eraseIdx index⟩
        | _ => ⟨both.2, serving.outstanding.set index { mutation with failed := true }⟩
  | .abort index =>
    match serving.outstanding[index]? with
    | none => none
    | some mutation => (serving.store.step outside (.call (.abort mutation.id))).map fun both =>
        ⟨both.2, serving.outstanding.eraseIdx index⟩

/-- A move that puts a bundle from disk in the place of a session while a mutation of it is under way. -/
def overtakes (serving : Serving) : Move → Prop
  | .act (.resume index _) =>
    match serving.store.pending[index]? with
    | some (.installRestored id _) => (serving.store.registry.lookup id).any Record.busy
    | _ => False
  | _ => False

def Steps (outside : Outside) (serving after : Serving) : Prop :=
  ∃ move, ¬serving.overtakes move ∧ serving.step outside move = some after

/-- No two mutations of a session are outstanding, a commit is built on what its begin handed out, and
an abort leaves the sessions of the others alone. -/
structure Serial (outside : Outside) (serving : Serving) : Prop where
  alone : (serving.outstanding.map Mutation.id).Nodup
  built : ∀ mutation ∈ serving.outstanding, ∀ key hash bundle result next after,
    serving.store.step outside (.call (.commit mutation.id mutation.revision key hash bundle result)) =
        some (some (.ends (.ok (.committed next))), after) →
      ∃ record, serving.store.registry.lookup mutation.id = some record ∧ record.busy = true ∧
        record.revision = mutation.revision ∧ record.bundle = mutation.bundle ∧ next = mutation.revision + 1
  unharmed : ∀ index after, serving.step outside (.abort index) = some after → ∀ other ∈ after.outstanding,
    after.store.registry.lookup other.id = serving.store.registry.lookup other.id ∧
      (serving.store.registry.lookup other.id).any Record.busy

end Serving

/-- The session of a mutation is busy, with the state that its client was handed. -/
def Mutation.Holds (mutation : Mutation) (store : Store) : Prop :=
  store.Holds mutation.id fun record =>
    record.busy = true ∧ record.revision = mutation.revision ∧ record.bundle = mutation.bundle

/-- What is so of the outstanding mutations between two moves. -/
structure Serving.Owned (serving : Serving) : Prop where
  alone : (serving.outstanding.map Mutation.id).Nodup
  holds : ∀ mutation ∈ serving.outstanding, mutation.Holds serving.store

section Owned

variable {outside : Outside} {store after : Store} {mutation : Mutation} {action : Store.Action} {outcome : Option Outcome}

/-- A step that is not the client's own, and does not overtake it. -/
theorem holds_step (is : store.step outside action = some (outcome, after)) (spared : ¬store.restores mutation.id action)
    (foreign : ∀ id revision key hash bundle result, action = .call (.commit id revision key hash bundle result) →
      id ≠ mutation.id)
    (foreign' : ∀ id, action = .call (.abort id) → id ≠ mutation.id)
    (holds : mutation.Holds store) : mutation.Holds after := by
  obtain ⟨record, found, busy, current, handed⟩ := holds
  have fate := Store.session_step is found
  cases arrives : after.registry.lookup mutation.id with
  | none =>
    rw [arrives] at fate
    cases fate with
    | replaced _ idle => rw [idle spared] at busy; cases busy
  | some record' =>
    rw [arrives] at fate
    refine ⟨record', arrives, ?_⟩
    cases fate with
    | kept saved => exact ⟨busy, current, handed⟩
    | begun _ idle => rw [idle] at busy; cases busy
    | aborted => exact absurd rfl (foreign' _ rfl)
    | committed => exact absurd rfl (foreign _ _ _ _ _ _ rfl)
    | replaced _ idle => rw [idle spared] at busy; cases busy

/-- A begin that starts hands out the committed state of an idle session. -/
theorem holds_granted (is : store.step outside action = some (outcome, after))
    (mem : mutation ∈ Serving.granted action outcome) :
    mutation.Holds after ∧ ∃ record, store.registry.lookup mutation.id = some record ∧ record.busy = false := by
  rw [Serving.granted.eq_def] at mem
  split at mem
  · next id revision key hash bundle =>
    obtain rfl := List.mem_singleton.mp mem
    rcases Store.step_begin is with ⟨⟨failure, failed⟩, -⟩ | ⟨began, registry, begun, same, rfl⟩
    · cases failed
    · obtain ⟨record, found, ⟨cached, -, -, -, rfl, -⟩ | ⟨-, idle, current, rfl, rfl⟩⟩ := Registry.begin_ok begun
      · cases same
      · cases same
        exact ⟨⟨_, AList.lookup_insert _, rfl, current, rfl⟩, record, found, idle⟩
  · cases mem

theorem granted_alone (action : Store.Action) (outcome : Option Outcome) :
    ((Serving.granted action outcome).map Mutation.id).Nodup := by
  rw [Serving.granted.eq_def]
  split
  · exact List.nodup_singleton _
  · exact List.nodup_nil

variable {outstanding : List Mutation} {index : ℕ}

/-- An outstanding mutation among the others has another session. -/
theorem other_of_mem_eraseIdx {other : Mutation}
    (alone : (outstanding.map Mutation.id).Nodup) (at_ : outstanding[index]? = some mutation)
    (mem : other ∈ outstanding.eraseIdx index) : other ∈ outstanding ∧ mutation.id ≠ other.id := by
  obtain ⟨place, apart, found⟩ := List.mem_eraseIdx_iff_getElem?.mp mem
  refine ⟨List.mem_of_getElem? found, fun same => apart ?_⟩
  have here : (outstanding.map Mutation.id)[place]? = some other.id := by rw [List.getElem?_map, found]; rfl
  have there : (outstanding.map Mutation.id)[index]? = some mutation.id := by rw [List.getElem?_map, at_]; rfl
  obtain ⟨bound, -⟩ := List.getElem?_eq_some_iff.mp here
  exact (List.getElem?_inj bound alone).mp (by rw [here, there, same])

theorem alone_eraseIdx (alone : (outstanding.map Mutation.id).Nodup) :
    ((outstanding.eraseIdx index).map Mutation.id).Nodup :=
  alone.sublist ((List.eraseIdx_sublist outstanding index).map Mutation.id)

/-- A refused mutation keeps its place. -/
theorem set_id_of_getElem? (at_ : outstanding[index]? = some mutation) :
    (outstanding.map Mutation.id).set index mutation.id = outstanding.map Mutation.id := by
  have same : (outstanding.map Mutation.id)[index]? = some mutation.id := by rw [List.getElem?_map, at_]; rfl
  obtain ⟨bound, is⟩ := List.getElem?_eq_some_iff.mp same
  rw [← is]
  exact List.set_getElem_self bound

namespace Serving

variable {serving next : Serving} {move : Move}

/-- A step that none of the clients takes, and that overtakes none. -/
theorem holds_of_act (owned : serving.Owned) (free : action.free) (spared : ¬serving.overtakes (.act action))
    (is : serving.store.step outside action = some (outcome, after)) : ∀ mutation ∈ serving.outstanding,
      mutation.Holds after := by
  intro mutation mem
  have holds := owned.holds mutation mem
  refine holds_step is (fun restored => spared ?_) (fun _ _ _ _ _ _ same => ?_) (fun _ same => ?_) holds
  · obtain ⟨record, found, busy, -⟩ := holds
    cases action with
    | resume index chance =>
      rw [Store.restores] at restored
      cases at_ : serving.store.pending[index]? with
      | none => rw [at_] at restored; cases restored
      | some pending =>
        rw [at_] at restored
        cases pending with
        | installRestored other bundle =>
          obtain ⟨rfl, -⟩ := restored
          rw [overtakes, at_]
          show (serving.store.registry.lookup mutation.id).any Record.busy
          rw [found]
          exact busy
        | _ => cases restored
    | crash => cases free
    | _ => cases restored
  · rw [same] at free
    cases free
  · rw [same] at free
    cases free

theorem owned_step (owned : serving.Owned) (spared : ¬serving.overtakes move) (is : serving.step outside move = some next) :
    next.Owned := by
  cases move with
  | act action =>
    rw [step] at is
    split at is
    · next free =>
      obtain ⟨⟨outcome, after⟩, taken, rfl⟩ := Option.map_eq_some_iff.mp is
      constructor
      · rw [List.map_append]
        refine owned.alone.append (granted_alone action outcome) fun other mem mem' => ?_
        obtain ⟨mutation, held, rfl⟩ := List.mem_map.mp mem
        obtain ⟨mutation', given, same⟩ := List.mem_map.mp mem'
        obtain ⟨-, record, found, idle⟩ := holds_granted taken given
        obtain ⟨record', found', busy, -⟩ := owned.holds mutation held
        rw [← same] at found'
        cases found.symm.trans found'
        rw [idle] at busy
        cases busy
      · intro mutation mem
        rcases List.mem_append.mp mem with held | given
        · exact holds_of_act owned free spared taken mutation held
        · exact (holds_granted taken given).1
    · cases is
  | commit index key hash bundle result =>
    rw [step] at is
    split at is
    · cases is
    · next mutation at_ =>
      split at is
      · cases is
      · obtain ⟨⟨outcome, after⟩, taken, rfl⟩ := Option.map_eq_some_iff.mp is
        rcases Store.step_commit taken with ⟨⟨failure, rfl⟩, rfl⟩ | ⟨revision, registry, -, rfl, -⟩
        · refine ⟨?_, fun other mem => ?_⟩
          · rw [List.map_set, set_id_of_getElem? at_]
            exact owned.alone
          · rcases List.mem_or_eq_of_mem_set mem with held | rfl
            · exact owned.holds other held
            · exact owned.holds mutation (List.mem_of_getElem? at_)
        · refine ⟨alone_eraseIdx owned.alone, fun other mem => ?_⟩
          obtain ⟨held, apart⟩ := other_of_mem_eraseIdx owned.alone at_ mem
          refine holds_step taken id (fun _ _ _ _ _ _ same => ?_) nofun (owned.holds other held)
          injection same with same
          injection same with same
          exact same ▸ apart
  | abort index =>
    rw [step] at is
    split at is
    · cases is
    · next mutation at_ =>
      obtain ⟨⟨outcome, after⟩, taken, rfl⟩ := Option.map_eq_some_iff.mp is
      refine ⟨alone_eraseIdx owned.alone, fun other mem => ?_⟩
      obtain ⟨held, apart⟩ := other_of_mem_eraseIdx owned.alone at_ mem
      refine holds_step taken id (fun _ _ _ _ _ _ same => ?_) (fun _ same => ?_) (owned.holds other held)
      · injection same with same
        cases same
      · injection same with same
        injection same with same
        exact same ▸ apart

theorem owned_run {files : Files} (run : ReflTransGen (Steps outside) (new files) serving) : serving.Owned :=
  kept_of_run (fun _ _ ⟨_, spared, is⟩ owned => owned_step owned spared is) run ⟨List.nodup_nil, List.forall_mem_nil _⟩

/-- The mutations of a session are serialized for as long as no bundle from disk is put in the place of
a session while a mutation of it is under way. -/
theorem mutations_serialize {files : Files} (run : ReflTransGen (Steps outside) (new files) serving) :
    serving.Serial outside := by
  have owned := owned_run run
  refine ⟨owned.alone, fun mutation mem key hash bundle result next after committed => ?_,
    fun index after aborted other mem => ?_⟩
  · obtain ⟨record, found, busy, current, handed⟩ := owned.holds mutation mem
    exact ⟨record, found, busy, current, handed, (holds_of_commit committed).1⟩
  · rw [step] at aborted
    split at aborted
    · cases aborted
    · next mutation at_ =>
      cases aborted
      obtain ⟨held, apart⟩ := other_of_mem_eraseIdx owned.alone at_ mem
      obtain ⟨record, found, busy, -⟩ := owned.holds other held
      refine ⟨?_, ?_⟩
      · show (serving.store.registry.abort mutation.id).lookup other.id = _
        rw [Registry.lookup_abort, if_neg (Ne.symm apart)]
      · rw [found]
        exact busy

end Serving

end Owned

section Sample

open Serving

def sampleChance : Chance := ⟨.done, List.replicate 32 5, []⟩

/-- A session is committed and saved; then it is restored while a client is at work on it, and another
client begins. -/
def sampleMoves : List Move :=
  [.act (.call (.create "s")), .act (sampleBegin 0), .commit 0 (sampleKey 0) [1] (oneTokenBundle "s") sampleResult,
    .act (.call (.save "s")), .act (.resume 0 sampleChance), .act (.resume 0 sampleChance), .act (sampleBegin 1),
    .act (.call (.restore "s")), .act (.resume 0 sampleChance), .act (.call (.begin "s" 1 (sampleKey 2) [2]))]

/-- A session that is committed once, and at work on its next revision. -/
def serialMoves : List Move :=
  [.act (.call (.create "s")), .act (sampleBegin 0), .commit 0 (sampleKey 0) [1] (oneTokenBundle "s") sampleResult,
    .act (sampleBegin 1)]

private theorem samples_run :
    ((serialMoves.foldlM (Serving.step plainOutside) (new Store.new.files)).any fun serving =>
        serving.outstanding.map Mutation.revision == [1]) = true ∧
      ((sampleMoves.foldlM (Serving.step plainOutside) (new Store.new.files)).any fun serving =>
        serving.outstanding.map Mutation.id == ["s", "s"]) = true := by
  decide +kernel

theorem mutations_serialize_sample : ∃ serving : Serving, serving.outstanding.map Mutation.revision = [1] ∧
    serving.Serial plainOutside := by
  obtain ⟨serving, moved, one⟩ := (Option.any_eq_true ..).mp samples_run.1
  refine ⟨serving, eq_of_beq one, mutations_serialize (foldlM_run (fun move mem _ _ taken => ⟨move, ?_, taken⟩) moved)⟩
  simp only [serialMoves, List.mem_cons, List.not_mem_nil, or_false] at mem
  rcases mem with rfl | rfl | rfl | rfl
  all_goals exact id

/-- A restore ends no mutation, but it frees the session for the next. -/
theorem restored_busy_session_is_shared : ¬∀ (files : Files) (serving : Serving),
    ReflTransGen (fun serving after => ∃ move, serving.step plainOutside move = some after) (new files) serving →
      serving.Serial plainOutside := by
  intro claim
  obtain ⟨serving, moved, two⟩ := (Option.any_eq_true ..).mp samples_run.2
  have serial := claim _ serving (foldlM_run (fun move _ _ _ taken => ⟨move, taken⟩) moved)
  have alone := serial.alone
  rw [eq_of_beq two] at alone
  exact absurd alone (by decide)

end Sample

end Muser.Sessions
