import Muser.Server.Ownership

/-! # The unhealthy latch

Who gets a permit from a pool that was latched: a call that begins after the latch is refused, and a call that
had passed its test of the latch before is served when a slot it can take is available once it has the lock.
-/

namespace Muser.Server

open Relation

variable {Content Cache Logits : Type} {engine : SessionEngine Content Cache Logits}

/-- Whether a caller is in an acquisition, or has its permit. -/
def Caller.admitted : Caller Content Cache Logits → Bool
  | .entered _ _ => true
  | .blocked _ _ => true
  | .holding _ _ => true
  | _ => false

theorem Caller.permitted_of_not_admitted {caller : Caller Content Cache Logits} (apart : caller.admitted = false) :
    caller.permitted = false := by
  cases caller <;> first | rfl | cases apart

/-- The caller whose acquisition has the lock in this step. -/
def SlotEvent.acquirer : SlotEvent Content Cache Logits → Option ℕ
  | .lock who _ => some who
  | .wake who _ _ => some who
  | _ => none

namespace Admission

variable {admission after : Admission Content Cache Logits}

/-- Once the pool is latched, an acquisition finds no slot that it can take when it has the lock. -/
def Heeds (admission : Admission Content Cache Logits) (event : SlotEvent Content Cache Logits) : Prop :=
  admission.pool.unhealthy = true → admission.pool.poisoned = false → ∀ who slot, event.acquirer = some who →
    (admission.caller who).acquires admission.pool.state.sessions.length = some slot →
      ∀ index ∈ admission.pool.state.available, ¬ Takes slot index

def Heeding (engine : SessionEngine Content Cache Logits) (admission after : Admission Content Cache Logits) : Prop :=
  ∃ event, admission.Heeds event ∧ admission.step engine event = some after

/-- No permit is handed out between the two states. -/
def Unserved (admission after : Admission Content Cache Logits) : Prop :=
  ∀ who, (after.caller who).permitted = true → (admission.caller who).permitted = true

section Sections

variable {pool : SlotPool Content}

theorem apart_eraseTake (index : ℕ) :
    (pool.eraseTake index : SlotPool Content × Caller Content Cache Logits).2.admitted = false := by
  simp only [SlotPool.eraseTake]
  split
  · rfl
  · split
    · rfl
    · split
      · rfl
      · split <;> rfl

theorem apart_eraseReturn (index : ℕ) (session : Session Content) :
    (pool.eraseReturn engine index session).2.admitted = false := by
  simp only [SlotPool.eraseReturn]
  split <;> rfl

theorem apart_snapshotIdle (index : ℕ) (panics : Bool) :
    (pool.snapshotIdle engine index panics).2.admitted = false := by
  simp only [SlotPool.snapshotIdle]
  split
  · rfl
  · split
    · rfl
    · split
      · rfl
      · split
        · split <;> rfl
        · rfl

theorem apart_restoreTake (index : ℕ) (snapshot : SlotSnapshot Cache Logits) :
    (pool.restoreTake index snapshot).2.admitted = false := by
  simp only [SlotPool.restoreTake]
  split
  · rfl
  · split
    · rfl
    · split
      · rfl
      · split <;> rfl

theorem apart_restoreReturn (index : ℕ) (session : Session Content) (snapshot : SlotSnapshot Cache Logits) :
    (pool.restoreReturn engine index session snapshot).2.admitted = false := by
  simp only [SlotPool.restoreReturn]
  split
  · rfl
  · split <;> rfl

variable {holder : ℕ → Option (ℕ × Session Content)}

/-- A claim that the state grants ends in a permit, and nothing else does. -/
theorem permitted_claimOrWait_iff
    (lending : Lending Session.born pool.state.sessions pool.state.available holder) (slot : Option ℕ)
    (deadline now : ℕ) :
    (pool.claimOrWait slot deadline now : SlotPool Content × Caller Content Cache Logits).2.permitted = true ↔
      pool.state.claim slot ≠ none := by
  simp only [SlotPool.claimOrWait]
  split
  · rename_i claimed
    obtain ⟨session, there⟩ := claim_there lending claimed
    simp [handOut_eq there, Caller.permitted, claimed]
  · rename_i none_
    simp only [none_, ne_eq, not_true, iff_false]
    split
    · exact Bool.noConfusion
    · simp only [SlotPool.await]
      split
      · exact Bool.noConfusion
      · split <;> exact Bool.noConfusion

theorem permitted_wake_iff
    (lending : Lending Session.born pool.state.sessions pool.state.available holder) (slot : Option ℕ)
    (deadline now : ℕ) (timedOut : Bool) :
    (pool.wake slot deadline now timedOut : SlotPool Content × Caller Content Cache Logits).2.permitted = true ↔
      pool.poisoned = false ∧ pool.state.claim slot ≠ none := by
  simp only [SlotPool.wake]
  split
  · rename_i poisoned
    simp [poisoned, Caller.permitted]
  · rename_i sound
    rw [Bool.not_eq_true] at sound
    simp only [sound, true_and]
    split
    · rename_i claimed
      obtain ⟨session, there⟩ := claim_there lending claimed
      have there' : (pool.withState pool.state.leave).state.sessions[_]? = some (some session) := there
      simp [handOut_eq there', Caller.permitted, claimed]
    · rename_i none_
      simp only [none_, ne_eq, not_true, iff_false]
      split
      · exact Bool.noConfusion
      · simp only [SlotPool.await]
        split
        · exact Bool.noConfusion
        · split <;> exact Bool.noConfusion

theorem permitted_acquire_iff
    (lending : Lending Session.born pool.state.sessions pool.state.available holder) (wanted : Wanted)
    (deadline now : ℕ) {slot : Option ℕ}
    (wants : (.entered wanted deadline : Caller Content Cache Logits).acquires pool.state.sessions.length = some slot) :
    (pool.acquire wanted deadline now : SlotPool Content × Caller Content Cache Logits).2.permitted = true ↔
      pool.poisoned = false ∧ pool.state.claim slot ≠ none := by
  simp only [SlotPool.acquire]
  split
  · rename_i poisoned
    simp [poisoned, Caller.permitted]
  · rename_i sound
    rw [Bool.not_eq_true] at sound
    simp only [sound, true_and]
    cases wanted with
    | any =>
      cases wants
      exact permitted_claimOrWait_iff lending none deadline now
    | specific requested =>
      cases wants
      dsimp only
      split
      · rename_i empty
        have absent : ∀ index, index ∉ pool.state.available := by
          intro index mem
          obtain ⟨session, there⟩ := lending.present mem
          rw [List.isEmpty_iff.mp empty] at there
          cases there
        have unclaimed : pool.state.claim (some (requested % pool.state.sessions.length)) = none :=
          SlotPoolState.claim_eq_none_iff.mpr fun index mem => absurd mem (absent index)
        rw [unclaimed]
        exact ⟨Bool.noConfusion, fun is => absurd rfl is⟩
      · exact permitted_claimOrWait_iff lending _ deadline now

end Sections

variable {next : SlotPool Content × Caller Content Cache Logits} {slot : Option ℕ}

theorem permitted_of_moved {someone who : ℕ} (before : (admission.caller who).permitted = false)
    (later : ((admission.moved someone next).caller who).permitted = true) :
    who = someone ∧ next.2.permitted = true := by
  rcases eq_or_ne who someone with rfl | differ
  · rw [caller_moved_self] at later
    exact ⟨rfl, later⟩
  · rw [caller_moved differ, before] at later
    cases later

variable {event : SlotEvent Content Cache Logits} {who : ℕ}

/-- Only an acquisition with the lock gets a permit. -/
theorem acquirer_of_permitted
    (is : admission.step engine event = some after) (before : (admission.caller who).permitted = false)
    (later : (after.caller who).permitted = true) : event.acquirer = some who := by
  cases event with
  | latch =>
    cases is
    rw [before] at later
    cases later
  | lock someone now | wake someone now timedOut =>
    simp only [step] at is
    split at is <;> cases is
    rw [(permitted_of_moved before later).1, SlotEvent.acquirer]
  | use someone content =>
    simp only [step] at is
    split at is <;> cases is
    rename_i holding
    obtain ⟨rfl, -⟩ := permitted_of_moved before later
    rw [holding] at before
    cases before
  | drop someone panicking =>
    simp only [step] at is
    split at is <;> cases is
    cases (permitted_of_moved before later).2
  | erase someone index =>
    simp only [step] at is
    split at is <;> cases is
    cases (Caller.permitted_of_not_admitted (apart_eraseTake index)).symm.trans (permitted_of_moved before later).2
  | eraseReturn someone =>
    simp only [step] at is
    split at is <;> cases is
    cases (Caller.permitted_of_not_admitted (apart_eraseReturn ..)).symm.trans (permitted_of_moved before later).2
  | acquire someone wanted timeout now | snapshot someone index =>
    simp only [step] at is
    split at is <;> cases is
    have mine := (permitted_of_moved before later).2
    dsimp only at mine
    split at mine <;> cases mine
  | read someone panics =>
    simp only [step] at is
    split at is <;> cases is
    cases (Caller.permitted_of_not_admitted (apart_snapshotIdle ..)).symm.trans (permitted_of_moved before later).2
  | restore someone index snapshot =>
    simp only [step] at is
    split at is <;> cases is
    have mine := (permitted_of_moved before later).2
    dsimp only at mine
    split at mine
    · cases mine
    · split at mine <;> cases mine
  | take someone =>
    simp only [step] at is
    split at is <;> cases is
    cases (Caller.permitted_of_not_admitted (apart_restoreTake ..)).symm.trans (permitted_of_moved before later).2
  | restoreReturn someone =>
    simp only [step] at is
    split at is <;> cases is
    cases (Caller.permitted_of_not_admitted (apart_restoreReturn ..)).symm.trans (permitted_of_moved before later).2

/-- What an acquisition with the lock gets. -/
theorem permitted_acquirer_iff (kept : admission.Kept)
    (is : admission.step engine event = some after) (locks : event.acquirer = some who) :
    ∃ slot, (admission.caller who).acquires admission.pool.state.sessions.length = some slot ∧
      ((after.caller who).permitted = true ↔
        admission.pool.poisoned = false ∧ admission.pool.state.claim slot ≠ none) := by
  cases event with
  | lock someone now =>
    cases locks
    simp only [step] at is
    split at is <;> cases is
    rename_i wanted deadline entered
    rw [entered, caller_moved_self]
    cases wanted with
    | any => exact ⟨none, rfl, permitted_acquire_iff kept.lending .any deadline now rfl⟩
    | specific requested => exact ⟨_, rfl, permitted_acquire_iff kept.lending (.specific requested) deadline now rfl⟩
  | wake someone now timedOut =>
    cases locks
    simp only [step] at is
    split at is <;> cases is
    rename_i slot deadline blocked
    rw [blocked, caller_moved_self]
    exact ⟨slot, rfl, permitted_wake_iff kept.lending slot deadline now timedOut⟩
  | _ => cases locks

theorem permitted_of_acquires {caller : Caller Content Cache Logits} {sessions : ℕ}
    (acquires : caller.acquires sessions = some slot) : caller.permitted = false := by
  cases caller with
  | holding index session => cases acquires
  | _ => rfl

/-- A claim is granted when a slot that it can take is available. -/
theorem claim_ne_none_iff {state : SlotPoolState Content} :
    state.claim slot ≠ none ↔ ∃ index ∈ state.available, Takes slot index := by
  rw [ne_eq, SlotPoolState.claim_eq_none_iff]
  push Not
  refine exists_congr fun index => and_congr_right fun _ => ?_
  cases slot with
  | none => simp [Takes]
  | some wanted => simp [Takes]

/-- A step hands out no permit after the latch exactly when it heeds the latch. -/
theorem unserved_step_iff (kept : admission.Kept) (latched : admission.pool.unhealthy = true)
    (is : admission.step engine event = some after) :
    Unserved admission after ↔ admission.Heeds event := by
  constructor
  · intro unserved _ sound who slot locks acquires index mem takes
    obtain ⟨slot', acquires', served⟩ := permitted_acquirer_iff kept is locks
    obtain rfl := Option.some.inj (acquires.symm.trans acquires')
    have granted : (after.caller who).permitted = true := served.mpr ⟨sound, claim_ne_none_iff.mpr ⟨index, mem, takes⟩⟩
    have had := unserved who granted
    rw [permitted_of_acquires acquires] at had
    cases had
  · intro heeds who later
    by_contra before
    rw [Bool.not_eq_true] at before
    have locks := acquirer_of_permitted is before later
    obtain ⟨slot, acquires, served⟩ := permitted_acquirer_iff kept is locks
    obtain ⟨sound, granted⟩ := served.mp later
    obtain ⟨index, mem, takes⟩ := claim_ne_none_iff.mp granted
    exact heeds latched sound who slot locks acquires index mem takes

/-- The latch is never taken back. -/
theorem Kept.latched_step (kept : admission.Kept) (latched : admission.pool.unhealthy = true)
    (is : admission.step engine event = some after) :
    after.pool.unhealthy = true := by
  rcases kept.section_of_step is with rfl | ⟨who, next, served | failed, rfl⟩
  · rfl
  · exact served.latched latched
  · exact failed.latched

theorem not_admitted_moved {someone who : ℕ}
    (before : (admission.caller who).admitted = false) (apart : next.2.admitted = false) :
    ((admission.moved someone next).caller who).admitted = false := by
  rcases eq_or_ne who someone with rfl | differ
  · rwa [caller_moved_self]
  · rwa [caller_moved differ]

/-- A call that was in no acquisition when the pool was latched is in none after. -/
theorem not_admitted_step (latched : admission.pool.unhealthy = true)
    (is : admission.step engine event = some after) (before : (admission.caller who).admitted = false) :
    (after.caller who).admitted = false := by
  have elsewhere : ∀ {someone next place}, admission.caller someone = place → place.admitted = true →
      ((admission.moved someone next).caller who).admitted = false := by
    intro someone next place stands inside
    have differ : who ≠ someone := by
      rintro rfl
      rw [stands, inside] at before
      cases before
    rwa [caller_moved differ]
  cases event with
  | latch =>
    cases is
    exact before
  | lock someone now | wake someone now timedOut | use someone content =>
    simp only [step] at is
    split at is <;> cases is
    exact elsewhere ‹_› rfl
  | drop someone panicking =>
    simp only [step] at is
    split at is <;> cases is
    exact not_admitted_moved before rfl
  | erase someone index =>
    simp only [step] at is
    split at is <;> cases is
    exact not_admitted_moved before (apart_eraseTake index)
  | eraseReturn someone =>
    simp only [step] at is
    split at is <;> cases is
    exact not_admitted_moved before (apart_eraseReturn ..)
  | acquire someone wanted timeout now | snapshot someone index =>
    simp only [step] at is
    split at is <;> cases is
    rw [if_pos latched]
    exact not_admitted_moved before rfl
  | read someone panics =>
    simp only [step] at is
    split at is <;> cases is
    exact not_admitted_moved before (apart_snapshotIdle ..)
  | restore someone index snapshot =>
    simp only [step] at is
    split at is <;> cases is
    rw [if_pos latched]
    refine not_admitted_moved before ?_
    dsimp only
    split <;> rfl
  | take someone =>
    simp only [step] at is
    split at is <;> cases is
    exact not_admitted_moved before (apart_restoreTake ..)
  | restoreReturn someone =>
    simp only [step] at is
    split at is <;> cases is
    exact not_admitted_moved before (apart_restoreReturn ..)

theorem available_await (pool : SlotPool Content) (slot : Option ℕ) (deadline now : ℕ) :
    (pool.await slot deadline now : SlotPool Content × Caller Content Cache Logits).1.state.available =
      pool.state.available := by
  rw [SlotPool.await]
  split_ifs <;> rfl

/-- The events that give a slot back: a permit is dropped, or an erasure or a restore ends. -/
def givesBack : SlotEvent Content Cache Logits → Bool
  | .drop .. | .eraseReturn .. | .restoreReturn .. => true
  | _ => false

/-- No slot becomes free but by one that is given back. -/
theorem available_nil_step {event : SlotEvent Content Cache Logits} (empty : admission.pool.state.available = [])
    (keeps : givesBack event = false) (is : admission.step engine event = some after) : after.pool.state.available = [] := by
  have none_ : ∀ slot, admission.pool.state.claim slot = none := by
    intro slot
    cases slot <;> simp [SlotPoolState.claim, empty]
  cases event with
  | drop | eraseReturn | restoreReturn => cases keeps
  | latch =>
    cases is
    exact empty
  | acquire | use | snapshot | lock | wake | erase | read | restore | take =>
    simp only [step] at is
    split at is <;> cases is
    all_goals
      simp only [moved, SlotPool.acquire, SlotPool.wake, SlotPool.eraseTake, SlotPool.snapshotIdle, SlotPool.restoreTake,
        SlotPool.claimOrWait, none_, SlotPool.latchUnhealthy, SlotPool.withState]
      repeat' split
      all_goals first | exact empty | exact (available_await ..).trans empty

/-- A latch that finds no slot free is heeded until a permit is dropped, or an erasure or a restore ends. -/
theorem unserved_until_given_back {contents : List Content} (run : ReflTransGen (Steps engine) (initial contents) admission)
    (latched : admission.pool.unhealthy = true) (empty : admission.pool.state.available = [])
    {events : List (SlotEvent Content Cache Logits)} (keeps : ∀ event ∈ events, givesBack event = false)
    (is : events.foldlM (step engine) admission = some after) : Unserved admission after := by
  have moved : ReflTransGen (fun state next => ∃ event, givesBack event = false ∧
      step engine state event = some next) admission after :=
    foldlM_run (fun event mem _ _ is => ⟨event, keeps event mem, is⟩) is
  have all : after.Kept ∧ after.pool.unhealthy = true ∧ after.pool.state.available = [] ∧ Unserved admission after := by
    refine kept_of_run (P := fun state => state.Kept ∧ state.pool.unhealthy = true ∧ state.pool.state.available = [] ∧
      Unserved admission state) ?_ moved ⟨kept_of_steps run, latched, empty, fun _ => id⟩
    rintro state next ⟨event, keeps, is⟩ ⟨kept, latched, empty, unserved⟩
    have heeds : state.Heeds event := by
      intro _ _ who slot _ _ index mem
      rw [empty] at mem
      cases mem
    have still : Unserved state next := (unserved_step_iff kept latched is).mpr heeds
    exact ⟨kept.step is, kept.latched_step latched is, available_nil_step empty keeps is,
      fun who later => unserved who (still who later)⟩
  exact all.2.2.2

/-- A pool with one slot: a request is blocked behind another, which fails. -/
def behind : List (SlotEvent Unit Unit Unit) :=
  [.acquire 0 .any 1000 0, .lock 0 0, .acquire 1 .any 1000 0, .lock 1 0, .latch]

/-- From the latch on: a run whose steps heed it hands out no permit, one step hands out none exactly when it
heeds it, and in any run only a call that was in its acquisition already can get one. -/
theorem unserved_of_latch {contents : List Content} (run : ReflTransGen (Steps engine) (initial contents) admission)
    (latched : admission.pool.unhealthy = true) :
    (∀ after, ReflTransGen (Heeding engine) admission after → Unserved admission after) ∧
      (∀ event after, admission.step engine event = some after → (Unserved admission after ↔ admission.Heeds event)) ∧
      ∀ after, ReflTransGen (Steps engine) admission after →
        ∀ who, (admission.caller who).admitted = false → (after.caller who).permitted = false := by
  have kept := kept_of_steps run
  refine ⟨fun after heeding => ?_, fun event after is => unserved_step_iff kept latched is,
    fun after later who apart => ?_⟩
  · have all : after.Kept ∧ after.pool.unhealthy = true ∧ Unserved admission after := by
      refine kept_of_run (P := fun state => state.Kept ∧ state.pool.unhealthy = true ∧ Unserved admission state) ?_
        heeding ⟨kept, latched, fun _ => id⟩
      rintro state next ⟨event, heeds, is⟩ ⟨kept, latched, unserved⟩
      have still : Unserved state next := (unserved_step_iff kept latched is).mpr heeds
      exact ⟨kept.step is, kept.latched_step latched is, fun who later => unserved who (still who later)⟩
    exact all.2.2
  · have all : after.Kept ∧ after.pool.unhealthy = true ∧ (after.caller who).admitted = false := by
      refine kept_of_run (P := fun state =>
        state.Kept ∧ state.pool.unhealthy = true ∧ (state.caller who).admitted = false) ?_ later ⟨kept, latched, apart⟩
      rintro state next ⟨event, is⟩ ⟨kept, latched, apart⟩
      exact ⟨kept.step is, kept.latched_step latched is, not_admitted_step latched is apart⟩
    exact Caller.permitted_of_not_admitted all.2.2

/-- The blocked request wakes after the latch, and no slot is free for it. -/
theorem unserved_of_latch_woken : ∃ admission after : Admission Unit Unit Unit,
    behind.foldlM (step emptyEngine) (initial [()]) = some admission ∧
      admission.step emptyEngine (.wake 1 0 false) = some after ∧
      after.caller 1 = .ended (.acquire .unhealthy) ∧ Unserved admission after := by
  refine ⟨_, _, rfl, rfl, rfl, ?_⟩
  have run : ReflTransGen (Steps emptyEngine) (initial [()]) _ :=
    @foldlM_run _ _ _ _ behind _ _ (fun event _ _ _ is => ⟨event, is⟩) rfl
  apply (unserved_of_latch run rfl).1
  apply ReflTransGen.single
  refine ⟨.wake 1 0 false, ?_, rfl⟩
  intro _ _ who slot _ _ index mem
  cases mem

/-- The failing request gives its slot back after the latch, and the blocked one is served from it. -/
theorem served_after_latch : ∃ admission after : Admission Unit Unit Unit,
    behind.foldlM (step emptyEngine) (initial [()]) = some admission ∧ admission.pool.unhealthy = true ∧
      [SlotEvent.drop 0 false, .wake 1 0 false].foldlM (step emptyEngine) admission = some after ∧
      (admission.caller 1).permitted = false ∧ (after.caller 1).permitted = true :=
  ⟨_, _, rfl, rfl, rfl, rfl, rfl⟩

end Admission

end Muser.Server
