import Mathlib.Data.Finset.Max
import Mathlib.Data.List.Sort
import Muser.Engine.Plane
import Muser.Lib.Turns

/-! # The accelerator scheduler

One permit at a time covers the shared queue. Decode work is selected before prefill work, and the waiting
sequences take turns in cyclic order after the last one served. A group of sequences is served as soon
as one of them is next; serving it moves the turn behind the last of them.
-/

namespace Muser.Engine

abbrev SequenceId := ℕ

structure AcceleratorSchedulerState where
  active : Bool
  decodeWaiting : Finset SequenceId
  lastDecode : Option SequenceId
deriving DecidableEq

/-- What a thread asks the accelerator for. -/
inductive AcceleratorRequest where
  | decode (sequenceId : SequenceId)
  | decodeGroup (sequenceIds : List SequenceId)
  | prefill
deriving DecidableEq

/-- The sequences that decode under a permit. -/
def AcceleratorRequest.sequences : AcceleratorRequest → List SequenceId
  | .decode sequenceId => [sequenceId]
  | .decodeGroup sequenceIds => sequenceIds
  | .prefill => []

/-- The least waiting sequence. -/
def firstWaiting (waiting : Finset SequenceId) : Option SequenceId :=
  if present : waiting.Nonempty then some (waiting.min' present) else none

def nextDecodeSequence (state : AcceleratorSchedulerState) : Option SequenceId :=
  match state.lastDecode with
  | none => firstWaiting state.decodeWaiting
  | some last => (firstWaiting (state.decodeWaiting.filter (last < ·))).or (firstWaiting state.decodeWaiting)

def duplicateDecode (sequenceId : SequenceId) : MetalModelError :=
  .invalidSnapshot ("sequence " ++ toString sequenceId ++ " queued duplicate decode work")

/-- Queue the sequences of a group one by one; a duplicate takes those before it back. -/
def insertGroup : List SequenceId → List SequenceId → Finset SequenceId → Except MetalModelError Unit × Finset SequenceId
  | _, [], waiting => (.ok (), waiting)
  | inserted, sequenceId :: sequenceIds, waiting =>
    if sequenceId ∈ waiting then (.error (duplicateDecode sequenceId), inserted.foldl Finset.erase waiting)
    else insertGroup (inserted ++ [sequenceId]) sequenceIds (insert sequenceId waiting)

namespace AcceleratorSchedulerState

/-- Queue a request. -/
def enqueue (state : AcceleratorSchedulerState) :
    AcceleratorRequest → Except MetalModelError Unit × AcceleratorSchedulerState
  | .prefill => (.ok (), state)
  | .decode sequenceId =>
    if sequenceId ∈ state.decodeWaiting then (.error (duplicateDecode sequenceId), state)
    else (.ok (), { state with decodeWaiting := insert sequenceId state.decodeWaiting })
  | .decodeGroup sequenceIds =>
    if sequenceIds.isEmpty ∨ 4 < sequenceIds.length then
      (.error (.invalidSnapshot "decode group must contain 1..=4 sequences"), state)
    else if ¬ sequenceIds.Nodup then (.error (.invalidSnapshot "decode group contains a duplicate sequence"), state)
    else
      let queued := insertGroup [] sequenceIds state.decodeWaiting
      (queued.1, { state with decodeWaiting := queued.2 })

def eligible (state : AcceleratorSchedulerState) : AcceleratorRequest → Bool
  | .decode sequenceId => !state.active && nextDecodeSequence state == some sequenceId
  | .decodeGroup sequenceIds => !state.active && (nextDecodeSequence state).any fun next => decide (next ∈ sequenceIds)
  | .prefill => !state.active && (nextDecodeSequence state).isNone

/-- Sort key of a group: the sequences above the last one served come first. No sequence is above the
largest id, which stands for no sequence at all. -/
def turn (state : AcceleratorSchedulerState) (sequenceId : SequenceId) : ℕ × SequenceId :=
  if Above state.lastDecode sequenceId then (0, sequenceId) else (1, sequenceId)

def turnLe (state : AcceleratorSchedulerState) (left right : SequenceId) : Bool :=
  decide ((state.turn left).1 < (state.turn right).1) ||
    ((state.turn left).1 == (state.turn right).1 && decide ((state.turn left).2 ≤ (state.turn right).2))

def served (state : AcceleratorSchedulerState) (sequenceId : SequenceId) : AcceleratorSchedulerState :=
  { state with decodeWaiting := state.decodeWaiting.erase sequenceId, lastDecode := some sequenceId }

def grant (state : AcceleratorSchedulerState) : AcceleratorRequest → AcceleratorSchedulerState
  | .prefill => { state with active := true }
  | .decode sequenceId => { state with active := true }.served sequenceId
  | .decodeGroup sequenceIds =>
    (sequenceIds.insertionSort fun left right => state.turnLe left right = true).foldl served { state with active := true }

end AcceleratorSchedulerState

/-- The scheduler, the requests of the threads that wait, and the permits that have not been dropped. -/
structure Accelerator where
  state : AcceleratorSchedulerState
  pending : List AcceleratorRequest
  permits : ℕ

/-- What happens next: a thread asks for the accelerator, a waiting thread looks again, a permit is dropped. -/
inductive AcceleratorCall where
  | acquire (request : AcceleratorRequest)
  | wake (index : ℕ)
  | release

inductive AcceleratorOutcome where
  | refused (failure : MetalModelError)
  | granted (request : AcceleratorRequest)
  | waits
  | released
  | nothing
deriving DecidableEq

/-- The sequences granted decode. -/
def AcceleratorOutcome.decodes : AcceleratorOutcome → List SequenceId
  | .granted request => request.sequences
  | _ => []

namespace Accelerator

def new : Accelerator where
  state := { active := false, decodeWaiting := ∅, lastDecode := none }
  pending := []
  permits := 0

/-- One pass of the waiting loop. -/
def attempt (accelerator : Accelerator) (request : AcceleratorRequest) : AcceleratorOutcome × Accelerator :=
  if accelerator.state.eligible request then
    (.granted request,
      { accelerator with state := accelerator.state.grant request, permits := accelerator.permits + 1 })
  else (.waits, { accelerator with pending := accelerator.pending ++ [request] })

def release (accelerator : Accelerator) : AcceleratorOutcome × Accelerator :=
  if accelerator.permits = 0 then (.nothing, accelerator)
  else
    (.released,
      { accelerator with state := { accelerator.state with active := false }, permits := accelerator.permits - 1 })

def step (accelerator : Accelerator) : AcceleratorCall → AcceleratorOutcome × Accelerator
  | .acquire request =>
    match accelerator.state.enqueue request with
    | (.error failure, state) => (.refused failure, { accelerator with state := state })
    | (.ok (), state) => { accelerator with state := state }.attempt request
  | .wake index =>
    match accelerator.pending[index]? with
    | none => (.nothing, accelerator)
    | some request => { accelerator with pending := accelerator.pending.eraseIdx index }.attempt request
  | .release => accelerator.release

/-- The accelerator after some calls. -/
def after (accelerator : Accelerator) : List AcceleratorCall → Accelerator
  | [] => accelerator
  | call :: calls => (accelerator.step call).2.after calls

/-- The sequences that some calls grant decode, in order. -/
def decodes (accelerator : Accelerator) : List AcceleratorCall → List SequenceId
  | [] => []
  | call :: calls => (accelerator.step call).1.decodes ++ (accelerator.step call).2.decodes calls

end Accelerator

section Selection

variable {state queued : AcceleratorSchedulerState} {sequenceId other : SequenceId} {sequenceIds : List SequenceId}

theorem firstWaiting_eq_none {waiting : Finset SequenceId} : firstWaiting waiting = none ↔ waiting = ∅ := by
  rw [firstWaiting]
  split
  · next present => simp [present.ne_empty]
  · next absent => simp [Finset.not_nonempty_iff_eq_empty.mp absent]

theorem firstWaiting_eq_some {waiting : Finset SequenceId} (first : firstWaiting waiting = some sequenceId) :
    sequenceId ∈ waiting ∧ ∀ other ∈ waiting, sequenceId ≤ other := by
  rw [firstWaiting] at first
  split at first
  · next present =>
    cases first
    exact ⟨Finset.min'_mem _ present, fun other member => Finset.min'_le _ other member⟩
  · cases first

theorem nextDecodeSequence_eq_none : nextDecodeSequence state = none ↔ state.decodeWaiting = ∅ := by
  rw [nextDecodeSequence]
  split
  · exact firstWaiting_eq_none
  · rw [Option.or_eq_none_iff, firstWaiting_eq_none, firstWaiting_eq_none]
    refine ⟨And.right, fun empty => ⟨?_, empty⟩⟩
    rw [empty, Finset.filter_empty]

/-- The next sequence comes before every other one that waits. -/
theorem nextDecodeSequence_eq_some (next : nextDecodeSequence state = some sequenceId) :
    sequenceId ∈ state.decodeWaiting ∧
      ∀ other ∈ state.decodeWaiting, other ≠ sequenceId → Precedes state.lastDecode sequenceId other := by
  rw [nextDecodeSequence] at next
  cases last : state.lastDecode with
  | none =>
    rw [last] at next
    obtain ⟨member, least⟩ := firstWaiting_eq_some next
    refine ⟨member, fun other among ne => .inr ⟨by simp, ?_⟩⟩
    exact lt_of_le_of_ne (least other among) ne.symm
  | some served =>
    rw [last] at next
    rcases Option.or_eq_some_iff.mp next with upper | ⟨none, lower⟩
    · obtain ⟨member, least⟩ := firstWaiting_eq_some upper
      obtain ⟨waits, above⟩ := Finset.mem_filter.mp member
      refine ⟨waits, fun other among ne => ?_⟩
      by_cases higher : served < other
      · right
        refine ⟨by simp [above, higher], lt_of_le_of_ne (least other ?_) ne.symm⟩
        exact Finset.mem_filter.mpr ⟨among, higher⟩
      · exact .inl ⟨above_some.mpr above, fun up => higher (above_some.mp up)⟩
    · obtain ⟨member, least⟩ := firstWaiting_eq_some lower
      have under : ∀ other ∈ state.decodeWaiting, ¬ served < other := by
        intro other among up
        have empty := firstWaiting_eq_none.mp none
        exact Finset.notMem_empty other (empty ▸ Finset.mem_filter.mpr ⟨among, up⟩)
      refine ⟨member, fun other among ne => .inr ⟨?_, lt_of_le_of_ne (least other among) ne.symm⟩⟩
      simp [under sequenceId member, under other among]

theorem foldl_erase (sequenceIds : List SequenceId) (waiting : Finset SequenceId) :
    sequenceIds.foldl Finset.erase waiting = waiting \ sequenceIds.toFinset := by
  induction sequenceIds generalizing waiting with
  | nil => simp
  | cons sequenceId sequenceIds ih =>
    rw [List.foldl_cons, ih, List.toFinset_cons]
    ext other
    simp only [Finset.mem_sdiff, Finset.mem_erase, Finset.mem_insert]
    tauto

/-- A group that is refused has been taken back. -/
theorem insertGroup_error {inserted sequenceIds : List SequenceId} (base : Finset SequenceId)
    {waiting after : Finset SequenceId}
    {failure : MetalModelError} (held : waiting = base ∪ inserted.toFinset)
    (fresh : ∀ sequenceId ∈ inserted, sequenceId ∉ base)
    (refused : insertGroup inserted sequenceIds waiting = (.error failure, after)) : after = base := by
  induction sequenceIds generalizing inserted waiting with
  | nil => cases refused
  | cons sequenceId sequenceIds ih =>
    rw [insertGroup] at refused
    split at refused
    · cases refused
      rw [foldl_erase, held]
      ext other
      simp only [Finset.mem_sdiff, Finset.mem_union, List.mem_toFinset]
      have := fresh other
      tauto
    · next absent =>
      have apart : sequenceId ∉ base := fun member => absent (held ▸ Finset.mem_union_left _ member)
      refine ih ?_ ?_ refused
      · rw [held]
        ext other
        simp only [Finset.mem_insert, Finset.mem_union, List.toFinset_append, List.toFinset_cons, List.toFinset_nil,
          List.mem_toFinset, Finset.notMem_empty, or_false]
        tauto
      · intro other member
        rcases List.mem_append.mp member with old | new
        · exact fresh other old
        · rw [List.mem_singleton.mp new]
          exact apart

theorem insertGroup_ok {inserted sequenceIds : List SequenceId} {waiting after : Finset SequenceId} {answer : Unit}
    (accepted : insertGroup inserted sequenceIds waiting = (.ok answer, after)) :
    after = waiting ∪ sequenceIds.toFinset := by
  induction sequenceIds generalizing inserted waiting with
  | nil =>
    cases accepted
    simp
  | cons sequenceId sequenceIds ih =>
    rw [insertGroup] at accepted
    split at accepted
    · cases accepted
    · rw [ih accepted]
      ext other
      simp only [Finset.mem_union, Finset.mem_insert, List.mem_toFinset, List.toFinset_cons]
      tauto

namespace AcceleratorSchedulerState

/-- A refused request leaves the scheduler as it was. -/
theorem enqueue_error {request : AcceleratorRequest} {failure : MetalModelError}
    (refused : state.enqueue request = (.error failure, queued)) : queued = state := by
  cases request with
  | prefill => cases refused
  | decode sequenceId =>
    rw [enqueue] at refused
    split at refused <;> cases refused
    rfl
  | decodeGroup sequenceIds =>
    rw [enqueue] at refused
    split at refused
    · cases refused
      rfl
    · split at refused
      · cases refused
        rfl
      · cases queuing : insertGroup [] sequenceIds state.decodeWaiting with
        | mk answer after =>
          rw [queuing] at refused
          cases refused
          rw [insertGroup_error state.decodeWaiting (by simp) (by simp) queuing]

/-- A queued request has its sequences wait beside those that waited. -/
theorem enqueue_ok {request : AcceleratorRequest} {answer : Unit} (accepted : state.enqueue request = (.ok answer, queued)) :
    queued = { state with decodeWaiting := state.decodeWaiting ∪ request.sequences.toFinset } ∧
      request.sequences.Nodup := by
  cases request with
  | prefill =>
    cases accepted
    simp [AcceleratorRequest.sequences]
  | decode sequenceId =>
    rw [enqueue] at accepted
    split at accepted <;> cases accepted
    rw [Finset.insert_eq, Finset.union_comm]
    exact ⟨rfl, List.nodup_singleton sequenceId⟩
  | decodeGroup sequenceIds =>
    rw [enqueue] at accepted
    split at accepted
    · cases accepted
    · split at accepted
      · cases accepted
      · next distinct =>
        cases queuing : insertGroup [] sequenceIds state.decodeWaiting with
        | mk reply after =>
          rw [queuing] at accepted
          cases accepted
          rw [insertGroup_ok queuing]
          exact ⟨rfl, not_not.mp distinct⟩

theorem turnLe_iff : state.turnLe sequenceId other = true ↔ sequenceId = other ∨
    Precedes state.lastDecode sequenceId other := by
  unfold turnLe turn Precedes
  by_cases above : Above state.lastDecode sequenceId <;> by_cases above' : Above state.lastDecode other
  · simp [above, above', le_iff_eq_or_lt]
  · simp [above, above']
  · simp only [above, above', if_true, if_false]
    simp
    rintro rfl
    exact above above'
  · simp [above, above', le_iff_eq_or_lt]

instance : IsTrans SequenceId fun left right => state.turnLe left right = true where
  trans first second third := by
    rw [turnLe_iff, turnLe_iff, turnLe_iff]
    rintro (rfl | before) (rfl | before')
    · exact .inl rfl
    · exact .inr before'
    · exact .inr before
    · exact .inr (before.trans before')

instance : Std.Total fun left right : SequenceId => state.turnLe left right = true where
  total first second := by
    rw [turnLe_iff, turnLe_iff]
    by_cases same : first = second
    · exact .inl (.inl same)
    · rcases Precedes.total state.lastDecode same with before | after
      · exact .inl (.inr before)
      · exact .inr (.inr after)

theorem foldl_served (sequenceIds : List SequenceId) (state : AcceleratorSchedulerState) :
    sequenceIds.foldl served state =
      { active := state.active
        decodeWaiting := state.decodeWaiting \ sequenceIds.toFinset
        lastDecode := sequenceIds.getLast?.or state.lastDecode } := by
  induction sequenceIds generalizing state with
  | nil => simp
  | cons sequenceId sequenceIds ih =>
    rw [List.foldl_cons, ih, served]
    congr 1
    · ext other
      simp only [Finset.mem_sdiff, Finset.mem_erase, List.toFinset_cons, Finset.mem_insert]
      tauto
    · cases sequenceIds with
      | nil => rfl
      | cons second rest =>
        rw [List.getLast?_cons_cons, List.getLast?_eq_getLast_of_ne_nil (List.cons_ne_nil second rest)]
        rfl

variable (state) in
/-- A grant serves the sequences of the request. The turn is then behind one of them that all the others
come before. -/
theorem grant_spec (request : AcceleratorRequest) :
    (state.grant request).active = true ∧
      (state.grant request).decodeWaiting = state.decodeWaiting \ request.sequences.toFinset ∧
      ((request.sequences = [] ∧ (state.grant request).lastDecode = state.lastDecode) ∨
        ∃ final ∈ request.sequences, (state.grant request).lastDecode = some final ∧
          ∀ other ∈ request.sequences, other = final ∨ Precedes state.lastDecode other final) := by
  cases request with
  | prefill => simp [grant, AcceleratorRequest.sequences]
  | decode sequenceId => simp [grant, served, AcceleratorRequest.sequences, Finset.erase_eq]
  | decodeGroup sequenceIds =>
    rw [grant, foldl_served]
    obtain ⟨ordered, orderedEq⟩ : ∃ ordered, ordered =
        sequenceIds.insertionSort fun left right => state.turnLe left right = true := ⟨_, rfl⟩
    have sorted : ordered.Pairwise fun left right => state.turnLe left right = true := by
      rw [orderedEq]
      exact List.pairwise_insertionSort _ sequenceIds
    have members : ordered.Perm sequenceIds := by
      rw [orderedEq]
      exact List.perm_insertionSort _ sequenceIds
    rw [← orderedEq]
    refine ⟨rfl, by simp [AcceleratorRequest.sequences, List.toFinset_eq_of_perm _ _ members], ?_⟩
    rcases List.eq_nil_or_concat ordered with none | ⟨front, final, split⟩
    · left
      rw [none] at members ⊢
      exact ⟨members.symm.eq_nil, rfl⟩
    · right
      rw [split, List.concat_eq_append] at members sorted
      rw [split, List.concat_eq_append]
      refine ⟨final, members.subset (by simp), by simp, fun other member => ?_⟩
      rcases List.mem_append.mp (members.symm.subset member) with before | last
      · exact turnLe_iff.mp ((List.pairwise_append.mp sorted).2.2 other before final (by simp))
      · exact .inl (List.mem_singleton.mp last)

end AcceleratorSchedulerState

end Selection

/-- Every sequence of a group comes before every other one that waits. -/
def AcceleratorSchedulerState.InTurn (state : AcceleratorSchedulerState) (sequenceIds : List SequenceId) : Prop :=
  ∀ waiting ∈ state.decodeWaiting, waiting ∉ sequenceIds →
    ∀ sequenceId ∈ sequenceIds, Precedes state.lastDecode sequenceId waiting

/-- A call does not grant a group past a sequence that waits. -/
def Accelerator.KeepsTurns (accelerator : Accelerator) : AcceleratorCall → Prop
  | .acquire (.decodeGroup sequenceIds) =>
    (accelerator.state.enqueue (.decodeGroup sequenceIds)).2.eligible (.decodeGroup sequenceIds) →
      accelerator.state.InTurn sequenceIds
  | .wake index =>
    ∀ sequenceIds, accelerator.pending[index]? = some (.decodeGroup sequenceIds) →
      accelerator.state.eligible (.decodeGroup sequenceIds) → accelerator.state.InTurn sequenceIds
  | _ => True

/-- Every call of a run keeps the turns. -/
def Accelerator.RunKeepsTurns (accelerator : Accelerator) : List AcceleratorCall → Prop
  | [] => True
  | call :: calls => accelerator.KeepsTurns call ∧ (accelerator.step call).2.RunKeepsTurns calls

namespace Accelerator

variable {accelerator : Accelerator} {call : AcceleratorCall} {sequenceId : SequenceId}

/-- The queue is owned by the one permit that is live, and groups wait without duplicates. -/
structure Sound (accelerator : Accelerator) : Prop where
  permits : accelerator.permits = if accelerator.state.active then 1 else 0
  pending : ∀ request ∈ accelerator.pending, request.sequences.Nodup

theorem sound_new : new.Sound where
  permits := rfl
  pending := by simp [new]

/-- Where a call reaches the waiting loop, with the request it looks for. -/
inductive Looks (accelerator : Accelerator) : AcceleratorCall → Accelerator → AcceleratorRequest → Prop where
  | entering {request : AcceleratorRequest} {state : AcceleratorSchedulerState}
      (queued : accelerator.state.enqueue request = (.ok (), state)) :
      Looks accelerator (.acquire request) { accelerator with state := state } request
  | woken {index : ℕ} {request : AcceleratorRequest} (found : accelerator.pending[index]? = some request) :
      Looks accelerator (.wake index) { accelerator with pending := accelerator.pending.eraseIdx index } request

/-- What one call can do. -/
theorem step_cases (accelerator : Accelerator) (call : AcceleratorCall) :
    (∃ looking request, accelerator.Looks call looking request ∧ accelerator.step call = looking.attempt request) ∨
      (accelerator.step call).2 = accelerator ∧ (accelerator.step call).1.decodes = [] ∧
        (accelerator.step call).1 ≠ .granted .prefill ∨
      (0 < accelerator.permits ∧ accelerator.step call = (.released,
        { accelerator with state := { accelerator.state with active := false }, permits := accelerator.permits - 1 })) := by
  cases call with
  | acquire request =>
    cases queuing : accelerator.state.enqueue request with
    | mk answer state =>
      cases answer with
      | ok answer => exact .inl ⟨_, request, .entering queuing, by rw [step, queuing]⟩
      | error failure =>
        cases AcceleratorSchedulerState.enqueue_error queuing
        exact .inr (.inl (by rw [step, queuing]; exact ⟨rfl, rfl, nofun⟩))
  | wake index =>
    cases found : accelerator.pending[index]? with
    | none => exact .inr (.inl (by rw [step, found]; exact ⟨rfl, rfl, nofun⟩))
    | some request => exact .inl ⟨_, request, .woken found, by rw [step, found]⟩
  | release =>
    rw [step, release]
    split
    · exact .inr (.inl ⟨rfl, rfl, nofun⟩)
    · next live => exact .inr (.inr ⟨Nat.pos_of_ne_zero live, rfl⟩)

variable {looking : Accelerator} {request : AcceleratorRequest}

theorem Looks.same (looks : accelerator.Looks call looking request) :
    looking.state.active = accelerator.state.active ∧ looking.state.lastDecode = accelerator.state.lastDecode ∧
      looking.permits = accelerator.permits ∧ accelerator.state.decodeWaiting ⊆ looking.state.decodeWaiting := by
  cases looks with
  | entering queued =>
    rw [(AcceleratorSchedulerState.enqueue_ok queued).1]
    exact ⟨rfl, rfl, rfl, Finset.subset_union_left⟩
  | woken found => exact ⟨rfl, rfl, rfl, Finset.Subset.refl _⟩

theorem Looks.nodup (looks : accelerator.Looks call looking request) (sound : accelerator.Sound) :
    request.sequences.Nodup := by
  cases looks with
  | entering queued => exact (AcceleratorSchedulerState.enqueue_ok queued).2
  | woken found => exact sound.pending request (List.mem_of_getElem? found)

theorem Looks.pending (looks : accelerator.Looks call looking request) : looking.pending ⊆ accelerator.pending := by
  cases looks with
  | entering queued => exact List.Subset.refl _
  | woken found => exact (List.eraseIdx_sublist ..).subset

theorem Looks.attempt_sound (looks : accelerator.Looks call looking request) (sound : accelerator.Sound) :
    (looking.attempt request).2.Sound := by
  obtain ⟨active, -, permits, -⟩ := looks.same
  rw [attempt]
  split
  · next eligible =>
    have idle : looking.state.active = false := by
      cases request <;> simp [AcceleratorSchedulerState.eligible] at eligible <;> exact eligible.1
    refine ⟨?_, fun other member => sound.pending other (looks.pending member)⟩
    dsimp only
    rw [(AcceleratorSchedulerState.grant_spec _ request).1, permits, sound.permits, ← active, idle]
    rfl
  · refine ⟨by rw [permits, sound.permits, active], fun other member => ?_⟩
    rcases List.mem_append.mp member with old | new
    · exact sound.pending other (looks.pending old)
    · rw [List.mem_singleton.mp new]
      exact looks.nodup sound

theorem step_sound (sound : accelerator.Sound) (call : AcceleratorCall) : (accelerator.step call).2.Sound := by
  rcases accelerator.step_cases call with ⟨looking, request, looks, stepped⟩ | ⟨same, -⟩ | ⟨live, stepped⟩
  · rw [stepped]
    exact looks.attempt_sound sound
  · rwa [same]
  · rw [stepped]
    refine ⟨?_, sound.pending⟩
    have permits := sound.permits
    dsimp only
    split at permits <;> simp at * <;> omega

theorem after_sound (sound : accelerator.Sound) (calls : List AcceleratorCall) : (accelerator.after calls).Sound := by
  induction calls generalizing accelerator with
  | nil => exact sound
  | cons call calls ih => exact ih (step_sound sound call)

/-- A sequence stops waiting only when it is granted decode. -/
theorem step_waits (waits : sequenceId ∈ accelerator.state.decodeWaiting)
    (kept : sequenceId ∉ (accelerator.step call).1.decodes) :
    sequenceId ∈ (accelerator.step call).2.state.decodeWaiting := by
  rcases accelerator.step_cases call with ⟨looking, request, looks, stepped⟩ | ⟨same, -⟩ | ⟨-, stepped⟩
  · obtain ⟨-, -, -, subset⟩ := looks.same
    rw [stepped, attempt] at kept ⊢
    split
    · next eligible =>
      rw [if_pos eligible] at kept
      dsimp only
      rw [(AcceleratorSchedulerState.grant_spec _ request).2.1]
      exact Finset.mem_sdiff.mpr ⟨subset waits, fun member => kept (List.mem_toFinset.mp member)⟩
    · exact subset waits
  · rwa [same]
  · rwa [stepped]

/-- What is granted past a waiting sequence comes before it. -/
theorem Looks.ahead (looks : accelerator.Looks call looking request) (turns : accelerator.KeepsTurns call)
    (eligible : looking.state.eligible request) (waits : sequenceId ∈ accelerator.state.decodeWaiting)
    (kept : sequenceId ∉ request.sequences) :
    ∀ other ∈ request.sequences, Precedes accelerator.state.lastDecode other sequenceId := by
  obtain ⟨-, last, -, subset⟩ := looks.same
  intro other among
  cases request with
  | prefill => cases among
  | decode chosen =>
    simp only [AcceleratorSchedulerState.eligible, Bool.and_eq_true, beq_iff_eq] at eligible
    obtain ⟨-, first⟩ := nextDecodeSequence_eq_some eligible.2
    rw [List.mem_singleton.mp among, ← last]
    exact first sequenceId (subset waits) fun same => kept (by simp [AcceleratorRequest.sequences, same])
  | decodeGroup sequenceIds =>
    cases looks with
    | entering queued =>
      have granted : (accelerator.state.enqueue (.decodeGroup sequenceIds)).2.eligible (.decodeGroup sequenceIds) := by
        rw [queued]
        exact eligible
      exact turns granted sequenceId waits kept other among
    | woken found => exact turns sequenceIds found eligible sequenceId waits kept other among

/-- While a sequence waits, those granted decode come before it, and do not afterwards. -/
theorem step_passes (sound : accelerator.Sound) (turns : accelerator.KeepsTurns call)
    (waits : sequenceId ∈ accelerator.state.decodeWaiting) (kept : sequenceId ∉ (accelerator.step call).1.decodes) :
    (accelerator.step call).1.decodes.Nodup ∧
      (∀ other ∈ (accelerator.step call).1.decodes, Precedes accelerator.state.lastDecode other sequenceId) ∧
      ∀ other, Precedes (accelerator.step call).2.state.lastDecode other sequenceId →
        Precedes accelerator.state.lastDecode other sequenceId ∧ other ∉ (accelerator.step call).1.decodes := by
  have idle : (accelerator.step call).1.decodes = [] →
      (accelerator.step call).2.state.lastDecode = accelerator.state.lastDecode →
      (accelerator.step call).1.decodes.Nodup ∧
      (∀ other ∈ (accelerator.step call).1.decodes, Precedes accelerator.state.lastDecode other sequenceId) ∧
      ∀ other, Precedes (accelerator.step call).2.state.lastDecode other sequenceId →
        Precedes accelerator.state.lastDecode other sequenceId ∧ other ∉ (accelerator.step call).1.decodes := by
    intro none same
    rw [none, same]
    exact ⟨List.nodup_nil, by simp, fun other ahead => ⟨ahead, by simp⟩⟩
  rcases accelerator.step_cases call with ⟨looking, request, looks, stepped⟩ | ⟨same, none, -⟩ | ⟨-, stepped⟩
  · obtain ⟨-, last, -, subset⟩ := looks.same
    rw [stepped, attempt] at kept idle ⊢
    split
    · next eligible =>
      rw [if_pos eligible] at kept idle
      have before := looks.ahead turns eligible waits kept
      obtain ⟨-, -, ⟨none, same⟩ | ⟨final, among, now, latest⟩⟩ := looking.state.grant_spec request
      · exact idle none (same.trans last)
      · refine ⟨looks.nodup sound, before, fun other ahead => ?_⟩
        dsimp only at ahead
        rw [now] at ahead
        obtain ⟨old, behind⟩ := Precedes.of_served (before final among) ahead
        refine ⟨old, fun member => ?_⟩
        rw [last] at latest
        rcases latest other member with rfl | earlier
        · exact Precedes.irrefl _ _ behind
        · exact Precedes.irrefl _ _ (earlier.trans behind)
    · next ineligible =>
      rw [if_neg ineligible] at idle
      exact idle rfl last
  · exact idle none (by rw [same])
  · exact idle (by rw [stepped]; rfl) (by rw [stepped])

/-- A sequence that waits all along is passed at most once by each other one, and only by those whose turn
comes before its own. -/
theorem run_passes (sound : accelerator.Sound) {calls : List AcceleratorCall} (turns : accelerator.RunKeepsTurns calls)
    (waits : sequenceId ∈ accelerator.state.decodeWaiting) (kept : sequenceId ∉ accelerator.decodes calls)
    (other : SequenceId) :
    (accelerator.decodes calls).count other ≤ 1 ∧
      (other ∈ accelerator.decodes calls → Precedes accelerator.state.lastDecode other sequenceId) := by
  induction calls generalizing accelerator with
  | nil => simp [decodes]
  | cons call calls ih =>
    rw [decodes, List.mem_append, not_or] at kept
    obtain ⟨distinct, before, later⟩ := step_passes sound turns.1 waits kept.1
    obtain ⟨once, ahead⟩ := ih (step_sound sound call) turns.2 (step_waits waits kept.1) kept.2
    rw [decodes, List.count_append, List.mem_append]
    constructor
    · have first := List.nodup_iff_count_le_one.mp distinct other
      by_cases again : other ∈ (accelerator.step call).2.decodes calls
      · rw [List.count_eq_zero_of_not_mem (later other (ahead again)).2]
        omega
      · rw [List.count_eq_zero_of_not_mem again]
        exact first
    · rintro (now | again)
      · exact before other now
      · exact (later other (ahead again)).1

theorem RunKeepsTurns.append {before during : List AcceleratorCall} (turns : accelerator.RunKeepsTurns (before ++ during)) :
    (accelerator.after before).RunKeepsTurns during := by
  induction before generalizing accelerator with
  | nil => exact turns
  | cons call before ih => exact ih turns.2

/-- Prefill is granted only where nobody waits to decode. -/
theorem step_prefill (granted : (accelerator.step call).1 = .granted .prefill) : accelerator.state.decodeWaiting = ∅ := by
  rcases accelerator.step_cases call with ⟨looking, request, looks, stepped⟩ | ⟨-, -, other⟩ | ⟨-, stepped⟩
  · rw [stepped, attempt] at granted
    split at granted
    · next eligible =>
      cases granted
      simp only [AcceleratorSchedulerState.eligible, Bool.and_eq_true, Option.isNone_iff_eq_none] at eligible
      have empty := nextDecodeSequence_eq_none.mp eligible.2
      obtain ⟨-, -, -, subset⟩ := looks.same
      exact Finset.subset_empty.mp (empty ▸ subset)
    · cases granted
  · exact absurd granted other
  · rw [stepped] at granted
    cases granted

theorem step_refused {failure : MetalModelError} {next : Accelerator}
    (refused : accelerator.step call = (.refused failure, next)) : next = accelerator := by
  rcases accelerator.step_cases call with ⟨looking, request, looks, stepped⟩ | ⟨same, -⟩ | ⟨-, stepped⟩
  · rw [stepped, attempt] at refused
    split at refused <;> cases refused
  · rw [refused] at same
    exact same
  · rw [stepped] at refused
    cases refused

end Accelerator

/-- One permit is live at most, prefill waits for decode, and a refused request changes nothing. In every run
whose groups are granted in turn, a waiting sequence is passed by no other one twice. -/
theorem accelerator_rotates (before during : List AcceleratorCall) :
    (Accelerator.new.after before).permits ≤ 1 ∧
      (∀ call, ((Accelerator.new.after before).step call).1 = .granted .prefill →
        (Accelerator.new.after before).state.decodeWaiting = ∅) ∧
      (∀ call failure next, (Accelerator.new.after before).step call = (.refused failure, next) →
        next.state.decodeWaiting = (Accelerator.new.after before).state.decodeWaiting) ∧
      (Accelerator.new.RunKeepsTurns (before ++ during) → ∀ sequenceId ∈ (Accelerator.new.after before).state.decodeWaiting,
        sequenceId ∉ (Accelerator.new.after before).decodes during →
          ∀ other, ((Accelerator.new.after before).decodes during).count other ≤ 1) := by
  have sound := Accelerator.after_sound Accelerator.sound_new before
  refine ⟨?_, fun call => Accelerator.step_prefill, fun call failure next refused => ?_,
    fun turns sequenceId waits kept other => (Accelerator.run_passes sound turns.append waits kept other).1⟩
  · rw [sound.permits]
    split <;> omega
  · rw [Accelerator.step_refused refused]

/-- While sequence 9 decodes, 2 asks for the accelerator and then 1 and 3 as a group. -/
def groupBeside : List AcceleratorCall :=
  [.acquire (.decode 9), .acquire (.decode 2), .acquire (.decodeGroup [1, 3]), .release]

/-- The group is granted, and 1 comes back while 2 still waits. -/
def groupReturns : List AcceleratorCall := [.wake 1, .release, .acquire (.decode 1)]

theorem group_passes_twice :
    2 ∈ (Accelerator.new.after groupBeside).state.decodeWaiting ∧
      2 ∉ (Accelerator.new.after groupBeside).decodes groupReturns ∧
      ¬ ((Accelerator.new.after groupBeside).decodes groupReturns).count 1 ≤ 1 := by
  decide

/-- While sequence 9 decodes, 4 asks for the accelerator and then 1 and 3 as a group. -/
def groupAhead : List AcceleratorCall :=
  [.acquire (.decode 9), .acquire (.decode 4), .acquire (.decodeGroup [1, 3]), .release]

/-- The group is granted in its turn, and 1 has to wait for 4 when it comes back. -/
theorem accelerator_rotates_group : (Accelerator.new.after groupAhead).decodes groupReturns = [1, 3] ∧
    4 ∈ (Accelerator.new.after (groupAhead ++ groupReturns)).state.decodeWaiting ∧
    ∀ other, ((Accelerator.new.after groupAhead).decodes groupReturns).count other ≤ 1 := by
  have turns : Accelerator.new.RunKeepsTurns (groupAhead ++ groupReturns) := by
    refine ⟨trivial, trivial, fun eligible => ?_, trivial, fun sequenceIds found _ => ?_, trivial, trivial, trivial⟩
    · exact absurd eligible (by decide)
    · have group : ∀ request ∈ (Accelerator.new.after groupAhead).pending[1]?, request = .decodeGroup [1, 3] := by decide
      cases group _ found
      show ∀ waiting ∈ (Accelerator.new.after groupAhead).state.decodeWaiting, _
      decide
  obtain ⟨-, -, -, fair⟩ := accelerator_rotates groupAhead groupReturns
  exact ⟨by decide, by decide, fair turns 4 (by decide) (by decide)⟩

end Muser.Engine
