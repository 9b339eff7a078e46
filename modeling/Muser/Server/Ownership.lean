import Muser.Lib.Runs
import Muser.Server.Slots
import Mathlib.Data.Set.Card

/-! # Slot ownership

What each locked section does with the slots and with the queue, and from it what holds in every state of the
pool: a slot is available when its session is in the pool, every session is in one place, and the queue counts
the blocked callers.
-/

namespace Muser.Server

open Relation

variable {Content Cache Logits : Type}

namespace Caller

/-- The session that a caller has outside the pool. -/
def owns : Caller Content Cache Logits → Option (ℕ × Session Content)
  | .holding index (some session) => some (index, session)
  | .erasing index session => some (index, session)
  | .restoring index session _ => some (index, session)
  | _ => none

def isBlocked : Caller Content Cache Logits → Bool
  | .blocked _ _ => true
  | _ => false

/-- The slot that an acquisition is after, if it is in one. -/
def acquires (sessions : ℕ) : Caller Content Cache Logits → Option (Option ℕ)
  | .entered .any _ => some none
  | .entered (.specific requested) _ => some (some (requested % sessions))
  | .blocked slot _ => some slot
  | _ => none

/-- Whether the caller has a permit. -/
def permitted : Caller Content Cache Logits → Bool
  | .holding _ _ => true
  | _ => false

/-- A permit has its session. -/
def Full (caller : Caller Content Cache Logits) : Prop := ∀ index, caller ≠ .holding index none

end Caller

/-- What a section that does not fail does for its caller. -/
structure Served (pool : SlotPool Content) (caller : Caller Content Cache Logits)
    (next : SlotPool Content × Caller Content Cache Logits) : Prop where
  shift : Shift Session.born pool.state.sessions pool.state.available caller.owns
    next.1.state.sessions next.1.state.available next.2.owns
  counts : (caller.isBlocked = true → 1 ≤ pool.state.waiting) →
    next.1.state.waiting + caller.isBlocked.toNat = pool.state.waiting + next.2.isBlocked.toNat
  bounded : pool.state.waiting ≤ maxQueuedRequests → next.1.state.waiting ≤ maxQueuedRequests
  full : next.2.Full
  latched : pool.unhealthy = true → next.1.unhealthy = true

/-- A section that latches the pool unhealthy; what its caller owned is lost. -/
structure Failed (pool : SlotPool Content) (next : SlotPool Content × Caller Content Cache Logits) : Prop where
  latched : next.1.unhealthy = true
  state : next.1.state = pool.state
  owns : next.2.owns = none
  unblocked : next.2.isBlocked = false
  full : next.2.Full

def Moved (pool : SlotPool Content) (caller : Caller Content Cache Logits)
    (next : SlotPool Content × Caller Content Cache Logits) : Prop :=
  Served pool caller next ∨ Failed pool next

namespace SlotPoolState

variable {state : SlotPoolState Content}

/-- A claimed slot was available and is no longer. -/
theorem claim_perm {slot : Option ℕ} {index : ℕ} {available : List ℕ}
    (claimed : state.claim slot = some (index, available)) : state.available.Perm (index :: available) := by
  cases slot with
  | none =>
    simp only [claim, Option.map_eq_some_iff, Prod.mk.injEq] at claimed
    obtain ⟨last, is, rfl, rfl⟩ := claimed
    rcases state.available.eq_nil_or_concat with empty | ⟨rest, other, concat⟩
    · rw [empty] at is
      cases is
    · rw [concat, List.concat_eq_append] at is ⊢
      rw [List.getLast?_concat, Option.some.injEq] at is
      rw [List.dropLast_concat, is]
      exact List.perm_append_singleton ..
  | some wanted =>
    simp only [claim, Option.map_eq_some_iff, Prod.mk.injEq] at claimed
    obtain ⟨position, is, rfl, rfl⟩ := claimed
    obtain ⟨bound, found, -⟩ := List.findIdx?_eq_some_iff_getElem.mp is
    apply swapRemove_perm
    rw [List.getElem?_eq_getElem bound]
    simpa using found

theorem claim_specific {wanted index : ℕ} {available : List ℕ}
    (claimed : state.claim (some wanted) = some (index, available)) : index = wanted := by
  simp only [claim, Option.map_eq_some_iff, Prod.mk.injEq] at claimed
  obtain ⟨-, -, rfl, -⟩ := claimed
  rfl

/-- Nothing is claimed when no slot that would do is available. -/
theorem claim_eq_none_iff {slot : Option ℕ} :
    state.claim slot = none ↔ ∀ index ∈ state.available, slot ≠ none ∧ slot ≠ some index := by
  cases slot with
  | none =>
    simp only [claim, Option.map_eq_none_iff, List.getLast?_eq_none_iff, ne_eq, not_true, false_and]
    constructor
    · intro empty index mem
      rw [empty] at mem
      cases mem
    · intro absent
      exact List.eq_nil_iff_forall_not_mem.mpr absent
  | some wanted =>
    simp only [claim, Option.map_eq_none_iff, List.findIdx?_eq_none_iff, beq_eq_false_iff_ne, ne_eq, reduceCtorEq,
      not_false_eq_true, true_and, Option.some.injEq]
    exact forall₂_congr fun index _ => not_congr eq_comm

end SlotPoolState

section Sections

variable {engine : SessionEngine Content Cache Logits} {pool : SlotPool Content}
  {caller : Caller Content Cache Logits} {holder : ℕ → Option (ℕ × Session Content)}

/-- The pool is latched, and its caller goes. -/
theorem failed_latch {answer : Answer Cache Logits} :
    Failed pool (pool.latchUnhealthy, (.ended answer : Caller Content Cache Logits)) :=
  ⟨rfl, rfl, rfl, rfl, fun _ is => nomatch is⟩

/-- The caller changes its place and the pool stays as it is. -/
theorem served_idle {next : Caller Content Cache Logits} (owns : next.owns = caller.owns)
    (blocked : next.isBlocked = caller.isBlocked) (full : next.Full) : Served pool caller (pool, next) :=
  ⟨owns ▸ .keep _, fun _ => by rw [blocked], id, full, id⟩

variable {index : ℕ} {session : Session Content}

theorem claim_there (lending : Lending Session.born pool.state.sessions pool.state.available holder)
    {slot : Option ℕ} {available : List ℕ} (claimed : pool.state.claim slot = some (index, available)) :
    ∃ session, pool.state.sessions[index]? = some (some session) :=
  lending.present ((SlotPoolState.claim_perm claimed).mem_iff.mpr (List.mem_cons_self ..))

theorem handOut_eq {available : List ℕ} (there : pool.state.sessions[index]? = some (some session)) :
    (pool.handOut index available : SlotPool Content × Caller Content Cache Logits) =
      (pool.withState (SlotPoolState.put { pool.state with available := available } index none),
        .holding index (some session)) := by
  simp only [SlotPool.handOut, there]

theorem await_served (slot : Option ℕ) (deadline now : ℕ) (blocked : caller.isBlocked = true) (owns : caller.owns = none) :
    Served pool caller (pool.await slot deadline now) := by
  have bounded : pool.state.waiting ≤ maxQueuedRequests → pool.state.leave.waiting ≤ maxQueuedRequests :=
    fun bound => (Nat.sub_le ..).trans bound
  have left : ∀ answer, Served pool caller (pool.withState pool.state.leave, .ended answer) := by
    refine fun answer => ⟨?_, fun waits => ?_, bounded, (fun _ is => nomatch is), id⟩
    · rw [owns]
      exact .keep none
    · rw [blocked]
      exact Nat.sub_add_cancel (waits blocked)
  simp only [SlotPool.await]
  split
  · exact left _
  · split
    · exact left _
    · exact served_idle owns.symm blocked.symm fun _ is => nomatch is

theorem claimOrWait_served (lending : Lending Session.born pool.state.sessions pool.state.available holder)
    (slot : Option ℕ) (deadline now : ℕ) (unblocked : caller.isBlocked = false) (owns : caller.owns = none) :
    Served pool caller (pool.claimOrWait slot deadline now) := by
  simp only [SlotPool.claimOrWait]
  split
  · rename_i index available claimed
    obtain ⟨session, there⟩ := claim_there lending claimed
    rw [handOut_eq there]
    refine ⟨?_, fun _ => by rw [unblocked]; rfl, id, (fun _ is => nomatch is), id⟩
    rw [owns]
    exact .take (SlotPoolState.claim_perm claimed) there
  · split
    · exact served_idle owns.symm unblocked.symm fun _ is => nomatch is
    · rename_i room
      have waits : Served (pool.withState pool.state.enter) (.blocked slot deadline : Caller Content Cache Logits)
          ((pool.withState pool.state.enter).await slot deadline now) := await_served slot deadline now rfl rfl
      refine ⟨?_, fun _ => ?_, fun _ => waits.bounded (Nat.lt_of_not_le room), waits.full, waits.latched⟩
      · rw [owns]
        exact waits.shift
      · rw [unblocked]
        have counted : _ + 1 = pool.state.waiting + 1 + _ := waits.counts fun _ => Nat.le_add_left ..
        simp only [Bool.toNat_false]
        lia

theorem acquire_moved (lending : Lending Session.born pool.state.sessions pool.state.available holder)
    (wanted : Wanted) (deadline now : ℕ) (unblocked : caller.isBlocked = false) (owns : caller.owns = none) :
    Moved pool caller (pool.acquire wanted deadline now) := by
  simp only [SlotPool.acquire]
  split
  · exact .inr failed_latch
  · cases wanted with
    | any => exact .inl (claimOrWait_served lending none deadline now unblocked owns)
    | specific requested =>
      dsimp only
      split
      · exact .inr failed_latch
      · exact .inl (claimOrWait_served lending _ deadline now unblocked owns)

theorem wake_moved (lending : Lending Session.born pool.state.sessions pool.state.available holder)
    (slot : Option ℕ) (deadline now : ℕ) (timedOut : Bool) (blocked : caller.isBlocked = true)
    (owns : caller.owns = none) : Moved pool caller (pool.wake slot deadline now timedOut) := by
  have bounded : pool.state.waiting ≤ maxQueuedRequests → pool.state.leave.waiting ≤ maxQueuedRequests :=
    fun bound => (Nat.sub_le ..).trans bound
  simp only [SlotPool.wake]
  split
  · exact .inr failed_latch
  · refine .inl ?_
    split
    · rename_i index available claimed
      obtain ⟨session, there⟩ := claim_there lending claimed
      have there' : (pool.withState pool.state.leave).state.sessions[index]? = some (some session) := there
      rw [handOut_eq there']
      refine ⟨?_, fun waits => ?_, bounded, (fun _ is => nomatch is), id⟩
      · rw [owns]
        exact .take (SlotPoolState.claim_perm claimed) there
      · rw [blocked]
        exact Nat.sub_add_cancel (waits blocked)
    · split
      · refine ⟨?_, fun waits => ?_, bounded, (fun _ is => nomatch is), id⟩
        · rw [owns]
          exact .keep none
        · rw [blocked]
          exact Nat.sub_add_cancel (waits blocked)
      · exact await_served slot deadline now blocked owns

theorem release_moved (lending : Lending Session.born pool.state.sessions pool.state.available holder) {who index : ℕ}
    (owner : holder who = some (index, session)) (panicking : Bool) :
    Moved pool (.holding index (some session) : Caller Content Cache Logits)
      (pool.release index (some session) panicking, .ended .dropped) := by
  simp only [SlotPool.release, (lending.lent who index session owner).2]
  split
  · exact .inr failed_latch
  · split
    · exact .inr failed_latch
    · exact .inl ⟨.give rfl, fun _ => rfl, id, (fun _ is => nomatch is), id⟩

theorem eraseTake_moved (lending : Lending Session.born pool.state.sessions pool.state.available holder) (index : ℕ) :
    Moved pool (.idle : Caller Content Cache Logits) (pool.eraseTake index) := by
  simp only [SlotPool.eraseTake]
  split
  · exact .inr failed_latch
  · refine .inl ?_
    split
    · exact served_idle rfl rfl fun _ is => nomatch is
    · split
      · exact served_idle rfl rfl fun _ is => nomatch is
      · rename_i other available claimed
        obtain rfl := SlotPoolState.claim_specific claimed
        obtain ⟨session, there⟩ := claim_there lending claimed
        rw [there]
        exact ⟨.take (SlotPoolState.claim_perm claimed) there, fun _ => rfl, id, (fun _ is => nomatch is), id⟩

theorem eraseReturn_moved :
    Moved pool (.erasing index session : Caller Content Cache Logits) (pool.eraseReturn engine index session) := by
  simp only [SlotPool.eraseReturn]
  split
  · exact .inr failed_latch
  · exact .inl ⟨.give rfl, fun _ => rfl, id, (fun _ is => nomatch is), id⟩

theorem snapshotIdle_moved (index : ℕ) (panics : Bool) :
    Moved pool (.snapshotting index : Caller Content Cache Logits) (pool.snapshotIdle engine index panics) := by
  have quiet : ∀ answer, Served pool (.snapshotting index : Caller Content Cache Logits) (pool, .ended answer) :=
    fun _ => served_idle rfl rfl fun _ is => nomatch is
  simp only [SlotPool.snapshotIdle]
  split
  · exact .inr failed_latch
  · refine .inl ?_
    split
    · exact quiet _
    · split
      · exact quiet _
      · split
        · split
          · exact ⟨.keep none, fun _ => rfl, id, (fun _ is => nomatch is), id⟩
          · exact quiet _
        · exact quiet _

theorem restoreTake_moved (lending : Lending Session.born pool.state.sessions pool.state.available holder) (index : ℕ)
    (snapshot : SlotSnapshot Cache Logits) :
    Moved pool (.entering index snapshot : Caller Content Cache Logits) (pool.restoreTake index snapshot) := by
  have quiet : ∀ answer, Served pool (.entering index snapshot : Caller Content Cache Logits) (pool, .ended answer) :=
    fun _ => served_idle rfl rfl fun _ is => nomatch is
  simp only [SlotPool.restoreTake]
  split
  · exact .inr failed_latch
  · refine .inl ?_
    split
    · exact quiet _
    · split
      · exact quiet _
      · rename_i other available claimed
        obtain rfl := SlotPoolState.claim_specific claimed
        obtain ⟨session, there⟩ := claim_there lending claimed
        rw [there]
        exact ⟨.take (SlotPoolState.claim_perm claimed) there, fun _ => rfl, id, (fun _ is => nomatch is), id⟩

theorem restored_born (session : Session Content) (snapshot : SlotSnapshot Cache Logits) :
    (SlotPool.restored engine session snapshot).2.born = session.born := by
  simp only [SlotPool.restored]
  split <;> rfl

theorem restoreReturn_moved (lending : Lending Session.born pool.state.sessions pool.state.available holder)
    {who index : ℕ} (owner : holder who = some (index, session)) (snapshot : SlotSnapshot Cache Logits) :
    Moved pool (.restoring index session snapshot : Caller Content Cache Logits)
      (pool.restoreReturn engine index session snapshot) := by
  simp only [SlotPool.restoreReturn, (lending.lent who index session owner).2]
  split
  · exact .inr failed_latch
  · exact .inl ⟨.give (restored_born ..), fun _ => rfl, id, (fun _ is => nomatch is), id⟩

end Sections

namespace Admission

variable {engine : SessionEngine Content Cache Logits} {admission after : Admission Content Cache Logits}

/-- The sessions that the callers have. -/
def holder (admission : Admission Content Cache Logits) : ℕ → Option (ℕ × Session Content) :=
  fun who => (admission.caller who).owns

def blocked (admission : Admission Content Cache Logits) : Set ℕ := {who | (admission.caller who).isBlocked = true}

/-- What holds whatever was latched, and what holds while nothing was. -/
structure Kept (admission : Admission Content Cache Logits) : Prop where
  lending : Lending Session.born admission.pool.state.sessions admission.pool.state.available admission.holder
  full : ∀ who, (admission.caller who).Full
  queued : admission.blocked.encard ≤ admission.pool.state.waiting
  bounded : admission.pool.state.waiting ≤ maxQueuedRequests
  whole : admission.pool.unhealthy = false → Whole admission.pool.state.sessions admission.holder
  counted : admission.pool.unhealthy = false → admission.blocked.encard = admission.pool.state.waiting

theorem holder_moved (who : ℕ) (next : SlotPool Content × Caller Content Cache Logits) :
    (admission.moved who next).holder = Function.update admission.holder who next.2.owns := by
  funext someone
  rcases eq_or_ne someone who with rfl | differ
  · simp [holder, moved]
  · simp [holder, moved, differ]

/-- The blocked callers, one of them apart. -/
theorem encard_blocked (caller : ℕ → Caller Content Cache Logits) (who : ℕ) :
    {someone | (caller someone).isBlocked = true}.encard =
      {someone | someone ≠ who ∧ (caller someone).isBlocked = true}.encard + (caller who).isBlocked.toNat := by
  cases is : (caller who).isBlocked with
  | false =>
    have same : {someone | (caller someone).isBlocked = true} =
        {someone | someone ≠ who ∧ (caller someone).isBlocked = true} := by
      ext someone
      refine ⟨fun blocks => ⟨?_, blocks⟩, And.right⟩
      rintro rfl
      rw [Set.mem_ofPred_eq, is] at blocks
      cases blocks
    rw [same]
    simp
  | true =>
    have split : {someone | (caller someone).isBlocked = true} =
        insert who {someone | someone ≠ who ∧ (caller someone).isBlocked = true} := by
      ext someone
      rcases eq_or_ne someone who with rfl | differ
      · simp [is]
      · simp [differ]
    rw [split, Set.encard_insert_of_notMem fun mem => mem.1 rfl]
    rfl

theorem encard_moved (who : ℕ) (next : SlotPool Content × Caller Content Cache Logits) :
    (admission.moved who next).blocked.encard + (admission.caller who).isBlocked.toNat =
      admission.blocked.encard + next.2.isBlocked.toNat := by
  have before := encard_blocked admission.caller who
  have later := encard_blocked (admission.moved who next).caller who
  have rest : {someone | someone ≠ who ∧ ((admission.moved who next).caller someone).isBlocked = true} =
      {someone | someone ≠ who ∧ (admission.caller someone).isBlocked = true} := by
    ext someone
    refine and_congr_right fun differ => ?_
    simp [moved, differ]
  have mine : (admission.moved who next).caller who = next.2 := by simp [moved]
  rw [rest, mine] at later
  rw [blocked, blocked, before, later, add_right_comm]

theorem Kept.waits (kept : admission.Kept) (who : ℕ) (blocks : (admission.caller who).isBlocked = true) :
    1 ≤ admission.pool.state.waiting := by
  have some_ : 1 ≤ admission.blocked.encard := Set.one_le_encard_iff_nonempty.mpr ⟨who, blocks⟩
  exact_mod_cast some_.trans kept.queued

variable {who : ℕ} {event : SlotEvent Content Cache Logits} {slot : Option ℕ}

/-- A section of one caller, done or failed, keeps the invariant. -/
theorem Kept.moved (kept : admission.Kept) {next : SlotPool Content × Caller Content Cache Logits}
    (section_ : Moved admission.pool (admission.caller who) next) : (admission.moved who next).Kept := by
  have counted : (admission.moved who next).blocked.encard + _ = _ := encard_moved who next
  have full : next.2.Full → ∀ someone, ((admission.moved who next).caller someone).Full := by
    intro mine someone
    rcases eq_or_ne someone who with rfl | differ
    · simpa [Admission.moved] using mine
    · simpa [Admission.moved, differ] using kept.full someone
  rcases section_ with served | failed
  · have shift : Shift Session.born admission.pool.state.sessions admission.pool.state.available (admission.holder who)
        next.1.state.sessions next.1.state.available next.2.owns := served.shift
    have waiting := served.counts (kept.waits who)
    have waiting' : (next.1.state.waiting : ℕ∞) + (admission.caller who).isBlocked.toNat =
        admission.pool.state.waiting + next.2.isBlocked.toNat := by exact_mod_cast waiting
    have healthy : next.1.unhealthy = false → admission.pool.unhealthy = false := by
      intro after
      by_contra latched
      rw [served.latched (by simpa using latched)] at after
      cases after
    refine ⟨?_, full served.full, ?_, served.bounded kept.bounded, fun after => ?_, fun after => ?_⟩
    · rw [holder_moved]
      exact kept.lending.shift shift
    · rw [← ENat.add_le_add_iff_right (ENat.natCast_ne_top (admission.caller who).isBlocked.toNat), counted]
      exact (add_le_add_left kept.queued _).trans waiting'.ge
    · rw [holder_moved]
      exact kept.lending.whole_shift (kept.whole (healthy after)) shift
    · have same := kept.counted (healthy after)
      rw [same, ← waiting'] at counted
      exact (ENat.add_left_injective_of_ne_top (ENat.natCast_ne_top _)) counted
  · have same : (admission.moved who next).pool.state = admission.pool.state := failed.state
    refine ⟨?_, full failed.full, ?_, ?_, fun after => ?_, fun after => ?_⟩
    · rw [holder_moved, same, failed.owns]
      exact kept.lending.lose who
    · rw [failed.unblocked, Bool.toNat_false, Nat.cast_zero, add_zero] at counted
      rw [same]
      exact (le_of_add_le_left counted.le).trans kept.queued
    · rw [same]
      exact kept.bounded
    · exact absurd (failed.latched.symm.trans after) (by decide)
    · exact absurd (failed.latched.symm.trans after) (by decide)

/-- Every step but the latch is a section of one caller. -/
theorem Kept.section_of_step (kept : admission.Kept) (is : admission.step engine event = some after) :
    after = { admission with pool := admission.pool.latchUnhealthy } ∨
      ∃ who next, Moved admission.pool (admission.caller who) next ∧ after = admission.moved who next := by
  have test : ∀ {who : ℕ} {next : Caller Content Cache Logits}, admission.caller who = .idle → next.owns = none →
      next.isBlocked = false → next.Full → Moved admission.pool (admission.caller who) (admission.pool, next) := by
    intro who next idle owns unblocked full
    rw [idle]
    exact .inl (served_idle owns unblocked full)
  cases event with
  | latch =>
    cases is
    exact .inl rfl
  | lock who now =>
    simp only [step] at is
    split at is <;> cases is
    rename_i wanted deadline entered
    refine .inr ⟨who, _, ?_, rfl⟩
    rw [entered]
    exact acquire_moved kept.lending wanted deadline now rfl rfl
  | wake who now timedOut =>
    simp only [step] at is
    split at is <;> cases is
    rename_i slot deadline blocked
    refine .inr ⟨who, _, ?_, rfl⟩
    rw [blocked]
    exact wake_moved kept.lending slot deadline now timedOut rfl rfl
  | use who content =>
    simp only [step] at is
    split at is <;> cases is
    rename_i index session holding
    refine .inr ⟨who, _, ?_, rfl⟩
    rw [holding]
    exact .inl ⟨.alter rfl, fun _ => rfl, id, (fun _ is => nomatch is), id⟩
  | drop who panicking =>
    simp only [step] at is
    split at is <;> cases is
    rename_i index session holding
    refine .inr ⟨who, _, ?_, rfl⟩
    cases session with
    | none => exact absurd holding (kept.full who index)
    | some session =>
      have owner : admission.holder who = some (index, session) := by rw [holder, holding, Caller.owns]
      rw [holding]
      exact release_moved kept.lending owner panicking
  | erase who index =>
    simp only [step] at is
    split at is <;> cases is
    rename_i idle
    refine .inr ⟨who, _, ?_, rfl⟩
    rw [idle]
    exact eraseTake_moved kept.lending index
  | eraseReturn who =>
    simp only [step] at is
    split at is <;> cases is
    rename_i index session erasing
    refine .inr ⟨who, _, ?_, rfl⟩
    rw [erasing]
    exact eraseReturn_moved
  | acquire who wanted timeout now | snapshot who index =>
    simp only [step] at is
    split at is <;> cases is
    rename_i idle
    refine .inr ⟨who, _, test idle ?_ ?_ ?_, rfl⟩ <;> split <;> first | rfl | exact fun _ is => nomatch is
  | read who panics =>
    simp only [step] at is
    split at is <;> cases is
    rename_i index snapshotting
    refine .inr ⟨who, _, ?_, rfl⟩
    rw [snapshotting]
    exact snapshotIdle_moved index panics
  | restore who index snapshot =>
    simp only [step] at is
    split at is <;> cases is
    rename_i idle
    refine .inr ⟨who, _, test idle ?_ ?_ ?_, rfl⟩ <;> split
    case isFalse => split <;> rfl
    case isFalse => split <;> rfl
    case isFalse => split <;> exact fun _ is => nomatch is
    · rfl
    · rfl
    · exact fun _ is => nomatch is
  | take who =>
    simp only [step] at is
    split at is <;> cases is
    rename_i index snapshot entering
    refine .inr ⟨who, _, ?_, rfl⟩
    rw [entering]
    exact restoreTake_moved kept.lending index snapshot
  | restoreReturn who =>
    simp only [step] at is
    split at is <;> cases is
    rename_i index session snapshot restoring
    refine .inr ⟨who, _, ?_, rfl⟩
    have owner : admission.holder who = some (index, session) := by rw [holder, restoring, Caller.owns]
    rw [restoring]
    exact restoreReturn_moved kept.lending owner snapshot

theorem Kept.step (kept : admission.Kept) (is : admission.step engine event = some after) : after.Kept := by
  rcases kept.section_of_step is with rfl | ⟨who, next, section_, rfl⟩
  · refine ⟨kept.lending, kept.full, kept.queued, kept.bounded, ?_, ?_⟩ <;> exact fun healthy => nomatch healthy
  · exact kept.moved section_

theorem kept_initial (contents : List Content) : (initial contents : Admission Content Cache Logits).Kept := by
  have there : ∀ (index : ℕ) (session : Session Content),
    (SlotPool.new contents).state.sessions[index]? = some (some session) →
      session.born = index := by
    intro index session is
    simp only [SlotPool.new, List.getElem?_mapIdx, Option.map_eq_some_iff] at is
    obtain ⟨content, -, same⟩ := is
    cases same
    rfl
  have home : ∀ index : ℕ, (SlotPool.new contents).state.sessions[index]? ≠ some none := by
    intro index is
    simp only [SlotPool.new, List.getElem?_mapIdx, Option.map_eq_some_iff] at is
    obtain ⟨content, -, same⟩ := is
    cases same
  have unblocked : (initial contents : Admission Content Cache Logits).blocked = ∅ := by
    simp [blocked, initial, Caller.isBlocked]
  refine ⟨⟨?_, fun index => ?_, there, ?_, ?_⟩, (fun _ _ is => nomatch is), ?_, Nat.zero_le _,
    fun _ index is => ?_, fun _ => ?_⟩
  · exact List.nodup_reverse.mpr List.nodup_range
  · simp only [initial, SlotPool.new, List.mem_reverse, List.mem_range, List.getElem?_mapIdx, Option.map_eq_some_iff]
    constructor
    · intro bound
      exact ⟨⟨index, contents[index]⟩, contents[index], List.getElem?_eq_getElem bound, rfl⟩
    · rintro ⟨-, content, is, -⟩
      exact (List.getElem?_eq_some_iff.mp is).1
  · exact fun who index session is => nomatch is
  · exact fun who other index session session' is => nomatch is
  · rw [unblocked, Set.encard_empty]
    exact bot_le
  · exact absurd is (home index)
  · rw [unblocked, Set.encard_empty]
    rfl

/-- Where a session can be. -/
inductive Place where
  | pool
  | permit (who : ℕ)
  | erase (who : ℕ)
  | restore (who : ℕ)
deriving DecidableEq

/-- The session that was made for the slot is in the place. -/
def At (admission : Admission Content Cache Logits) (slot : ℕ) : Place → Prop
  | .pool => ∃ (index : ℕ) (session : Session Content),
      admission.pool.state.sessions[index]? = some (some session) ∧ session.born = slot
  | .permit who => ∃ index session, admission.caller who = .holding index (some session) ∧ session.born = slot
  | .erase who => ∃ index session, admission.caller who = .erasing index session ∧ session.born = slot
  | .restore who =>
    ∃ index session snapshot, admission.caller who = .restoring index session snapshot ∧ session.born = slot

/-- The ownership of the slots and the count of the queue, in one state. -/
structure Ownership (slots : ℕ) (admission : Admission Content Cache Logits) : Prop where
  nodup : admission.pool.state.available.Nodup
  available_iff : ∀ index,
    index ∈ admission.pool.state.available ↔ ∃ session, admission.pool.state.sessions[index]? = some (some session)
  one_place : ∀ slot < slots, ∃! place, admission.At slot place
  waiting : admission.blocked.encard = admission.pool.state.waiting
  bounded : admission.pool.state.waiting ≤ maxQueuedRequests

/-- The place of a caller that owns a session. -/
def placeOf (admission : Admission Content Cache Logits) (who : ℕ) : Place :=
  match admission.caller who with
  | .erasing _ _ => .erase who
  | .restoring _ _ _ => .restore who
  | _ => .permit who

theorem At.cases {slot : ℕ} {place : Place} (there : admission.At slot place) :
    (place = .pool ∧ ∃ (index : ℕ) (session : Session Content),
      admission.pool.state.sessions[index]? = some (some session) ∧ session.born = slot) ∨
      ∃ who index session, place = admission.placeOf who ∧ admission.holder who = some (index, session) ∧
        session.born = slot := by
  cases place with
  | pool => exact .inl ⟨rfl, there⟩
  | permit who | erase who =>
    obtain ⟨index, session, is, born⟩ := there
    exact .inr ⟨who, index, session, by rw [placeOf, is], by rw [holder, is, Caller.owns], born⟩
  | restore who =>
    obtain ⟨index, session, snapshot, is, born⟩ := there
    exact .inr ⟨who, index, session, by rw [placeOf, is], by rw [holder, is, Caller.owns], born⟩

theorem at_placeOf {slot who index : ℕ} {session : Session Content}
    (owns : admission.holder who = some (index, session)) (born : session.born = slot) :
    admission.At slot (admission.placeOf who) := by
  rw [holder] at owns
  rw [placeOf]
  cases is : admission.caller who with
  | holding other held =>
    rw [is] at owns
    cases held <;> cases owns
    exact ⟨_, _, is, born⟩
  | erasing other held =>
    rw [is] at owns
    cases owns
    exact ⟨_, _, is, born⟩
  | restoring other held snapshot =>
    rw [is] at owns
    cases owns
    exact ⟨_, _, _, is, born⟩
  | _ =>
    rw [is] at owns
    cases owns

/-- While nothing is latched every session is in one place. -/
theorem Kept.one_place (kept : admission.Kept) (healthy : admission.pool.unhealthy = false) {slot : ℕ}
    (bound : slot < admission.pool.state.sessions.length) : ∃! place, admission.At slot place := by
  have housed : ∀ (index : ℕ) (session : Session Content), admission.pool.state.sessions[index]? = some (some session) →
      session.born = slot → admission.pool.state.sessions[slot]? = some (some session) := by
    intro index session there born
    rwa [← (kept.lending.home_eq index session there).symm.trans born]
  have lent : ∀ who index session, admission.holder who = some (index, session) → session.born = slot →
      index = slot ∧ admission.pool.state.sessions[slot]? = some none := by
    intro who index session owns born
    obtain ⟨home, empty⟩ := kept.lending.lent who index session owns
    obtain rfl := home.symm.trans born
    exact ⟨rfl, empty⟩
  cases there : admission.pool.state.sessions[slot] with
  | some session =>
    have inside : admission.pool.state.sessions[slot]? = some (some session) := by
      rw [List.getElem?_eq_getElem bound, there]
    refine ⟨.pool, ⟨slot, session, inside, kept.lending.home_eq slot session inside⟩, fun place at_ => ?_⟩
    rcases at_.cases with ⟨rfl, -⟩ | ⟨who, index, session', -, owns, born⟩
    · rfl
    · rw [(lent who index session' owns born).2] at inside
      cases inside
  | none =>
    have empty : admission.pool.state.sessions[slot]? = some none := by
      rw [List.getElem?_eq_getElem bound, there]
    obtain ⟨who, session, owns⟩ := kept.whole healthy slot empty
    refine ⟨admission.placeOf who, at_placeOf owns (kept.lending.lent who slot session owns).1, fun place at_ => ?_⟩
    rcases at_.cases with ⟨rfl, index, session', inside, born⟩ | ⟨other, index, session', rfl, owns', born⟩
    · rw [housed index session' inside born] at empty
      cases empty
    · obtain ⟨rfl, -⟩ := lent other index session' owns' born
      rw [kept.lending.alone other who index session' session owns' owns]

/-- The states of the pool, over every interleaving. -/
def Steps (engine : SessionEngine Content Cache Logits) (admission after : Admission Content Cache Logits) : Prop :=
  ∃ event, admission.step engine event = some after

variable {contents : List Content} {pool : SlotPool Content} {deadline now : ℕ}

theorem kept_of_steps (run : ReflTransGen (Steps engine) (initial contents) admission) :
    admission.Kept :=
  kept_of_run (fun _ _ ⟨_, is⟩ kept => kept.step is) run (kept_initial contents)

theorem length_of_steps (run : ReflTransGen (Steps engine) (initial contents) admission) :
    admission.pool.state.sessions.length = contents.length := by
  induction run with
  | refl => simp [initial, SlotPool.new]
  | tail run last ih =>
    obtain ⟨event, is⟩ := last
    rcases (kept_of_steps run).section_of_step is with rfl | ⟨who, next, served | failed, rfl⟩
    · exact ih
    · exact served.shift.length_eq.trans ih
    · rw [Admission.moved, failed.state, ih]

/-- The call of this caller answers that the pool is overloaded. -/
def Overloaded (admission : Admission Content Cache Logits) (who : ℕ) : Prop :=
  admission.caller who = .ended (.acquire .overloaded)

/-- The slots that a waiting call can take. -/
def Takes : Option ℕ → ℕ → Prop
  | none, _ => True
  | some wanted, index => wanted = index

theorem not_takes_of_claim {state : SlotPoolState Content} (none_ : state.claim slot = none) :
    ∀ index ∈ state.available, ¬ Takes slot index := by
  intro index mem
  obtain ⟨wanted, differ⟩ := SlotPoolState.claim_eq_none_iff.mp none_ index mem
  cases slot with
  | none => exact absurd rfl wanted
  | some other => exact fun same => differ (congrArg some same)

theorem caller_moved {who other : ℕ} (differ : other ≠ who) (next : SlotPool Content × Caller Content Cache Logits) :
    (admission.moved who next).caller other = admission.caller other := Function.update_of_ne differ ..

theorem caller_moved_self (who : ℕ) (next : SlotPool Content × Caller Content Cache Logits) :
    (admission.moved who next).caller who = next.2 := Function.update_self ..

/-- A caller in an acquisition moves with the lock or with its wake. -/
theorem step_acquiring (is : admission.step engine event = some after)
    (acquiring : (admission.caller who).acquires admission.pool.state.sessions.length = some slot)
    (left : after.caller who ≠ admission.caller who) :
    (∃ wanted deadline now, admission.caller who = .entered wanted deadline ∧
      after = admission.moved who (admission.pool.acquire wanted deadline now)) ∨
    ∃ slot deadline now timedOut, admission.caller who = .blocked slot deadline ∧
      after = admission.moved who (admission.pool.wake slot deadline now timedOut) := by
  have elsewhere : ∀ {someone next place}, admission.caller someone = place →
    place.acquires admission.pool.state.sessions.length = none →
      (admission.moved someone next).caller who = admission.caller who := by
    intro someone next place stands apart
    have differ : who ≠ someone := by
      rintro rfl
      rw [stands, apart] at acquiring
      cases acquiring
    exact caller_moved differ next
  cases event with
  | latch =>
    cases is
    exact absurd rfl left
  | lock someone now =>
    simp only [step] at is
    split at is <;> cases is
    rename_i wanted deadline stands
    rcases eq_or_ne who someone with rfl | differ
    · exact .inl ⟨wanted, deadline, now, stands, rfl⟩
    · exact absurd (caller_moved differ _) left
  | wake someone now timedOut =>
    simp only [step] at is
    split at is <;> cases is
    rename_i slot deadline stands
    rcases eq_or_ne who someone with rfl | differ
    · exact .inr ⟨slot, deadline, now, timedOut, stands, rfl⟩
    · exact absurd (caller_moved differ _) left
  | _ =>
    simp only [step] at is
    split at is <;> cases is
    rename_i stands
    exact absurd (elsewhere stands rfl) left

theorem overloaded_of_claimOrWait
    (overloaded : (pool.claimOrWait slot deadline now : SlotPool Content × Caller Content Cache Logits).2 =
      .ended (.acquire .overloaded)) : ∀ index ∈ pool.state.available, ¬ Takes slot index := by
  simp only [SlotPool.claimOrWait] at overloaded
  split at overloaded
  · simp only [SlotPool.handOut] at overloaded
    split at overloaded <;> cases overloaded
  · rename_i none_
    exact not_takes_of_claim none_

/-- A caller that waited is told of an overload only when no slot that it could take is available. -/
theorem overloaded_of_wake {timedOut : Bool}
    (overloaded : (pool.wake slot deadline now timedOut : SlotPool Content × Caller Content Cache Logits).2 =
      .ended (.acquire .overloaded)) : ∀ index ∈ pool.state.available, ¬ Takes slot index := by
  simp only [SlotPool.wake] at overloaded
  split at overloaded
  · cases overloaded
  · split at overloaded
    · simp only [SlotPool.handOut] at overloaded
      split at overloaded <;> cases overloaded
    · rename_i none_
      exact not_takes_of_claim none_

theorem overloaded_of_step (is : admission.step engine event = some after)
    (acquiring : (admission.caller who).acquires admission.pool.state.sessions.length = some slot)
    (overloaded : after.Overloaded who) : ∀ index ∈ admission.pool.state.available, ¬ Takes slot index := by
  have left : after.caller who ≠ admission.caller who := by
    intro same
    rw [← same, overloaded] at acquiring
    cases acquiring
  rw [Overloaded] at overloaded
  rcases step_acquiring is acquiring left with
    ⟨wanted, deadline, now, stands, rfl⟩ | ⟨slot', deadline, now, timedOut, stands, rfl⟩
  · rw [stands] at acquiring
    rw [caller_moved_self] at overloaded
    simp only [SlotPool.acquire] at overloaded
    split at overloaded
    · cases overloaded
    · cases wanted with
      | any =>
        cases acquiring
        exact overloaded_of_claimOrWait overloaded
      | specific requested =>
        cases acquiring
        dsimp only at overloaded
        split at overloaded
        · cases overloaded
        · exact overloaded_of_claimOrWait overloaded
  · rw [stands] at acquiring
    cases acquiring
    rw [caller_moved_self] at overloaded
    exact overloaded_of_wake overloaded

/-- The slots belong to one place each, in every state of a healthy pool. -/
theorem ownership_of_steps {contents : List Content} (run : ReflTransGen (Steps engine) (initial contents) admission)
    (healthy : admission.pool.unhealthy = false) :
    admission.Ownership contents.length ∧
      ∀ event after who slot, admission.step engine event = some after →
        (admission.caller who).acquires contents.length = some slot → after.Overloaded who →
          ∀ index ∈ admission.pool.state.available, ¬ Takes slot index := by
  have kept := kept_of_steps run
  have length := length_of_steps run
  refine ⟨⟨kept.lending.nodup, kept.lending.mem_free_iff, fun slot bound => ?_, kept.counted healthy, kept.bounded⟩,
    fun event after who slot is acquiring overloaded => ?_⟩
  · exact kept.one_place healthy (bound.trans_eq length.symm)
  · exact overloaded_of_step is (length.symm ▸ acquiring) overloaded

/-- An engine whose sessions have nothing in them. -/
def emptyEngine : SessionEngine Unit Unit Unit where
  reset := id
  exportCacheSnapshot _ := .ok ()
  cachedLogits := some
  installCacheSnapshot _ _ := (.ok (), ())
  installRestoredLogits _ _ := (.ok (), ())

theorem ownership_of_steps_locked : ∃ admission : Admission Unit Unit Unit,
    admission.caller 0 = .holding 0 (some ⟨0, ()⟩) ∧ admission.Ownership 2 := by
  let entered : Admission Unit Unit Unit := (initial [(), ()]).moved 0 (.new [(), ()], .entered .any 1000)
  let locked : Admission Unit Unit Unit := entered.moved 0 (entered.pool.acquire .any 1000 0)
  have first : Steps emptyEngine (initial [(), ()]) entered := ⟨.acquire 0 .any 1000 0, rfl⟩
  have second : Steps emptyEngine entered locked := ⟨.lock 0 0, rfl⟩
  have run : ReflTransGen (Steps emptyEngine) (initial [(), ()]) locked := .tail (.single first) second
  exact ⟨locked, rfl, (ownership_of_steps run rfl).1⟩

end Admission

end Muser.Server
