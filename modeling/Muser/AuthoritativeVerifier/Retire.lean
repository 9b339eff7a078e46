import Muser.AuthoritativeVerifier.Chain
import Muser.AuthoritativeVerifier.Filed

/-! # Retired requests

Once `garbage_collect` has answered, its request is known to the journal only by a tombstone: it can
neither be reserved nor prepared nor committed again, in any later state of the same journal. The
commit and active files stay behind as transcript, and a restart turns them back into a completion.
-/

namespace Muser.Verifier

variable {p : Primitives} {scope : Scope}

/-- A request of which only the tombstone is left in memory. -/
structure Journal.Retired (journal : Journal) (requestId : String) : Prop where
  tombstoned : ∃ tombstone, journal.tombstones.lookup requestId = some tombstone ∧ tombstone.requestId = requestId
  notReserved : journal.reservations.lookup requestId = none
  notPrepared : journal.prepared.lookup requestId = none
  notCompleted : journal.completions.lookup requestId = none
  notPending : ∀ commit, journal.pendingActivation = some commit → commit.request.core.requestId ≠ requestId

variable {requestId : String} {world : World} {retiredId : String} {tearing : Prop}

/-- The record that a call stores is never one of a retired request. -/
theorem Journal.Retired.memorize (retired : world.journal.Retired retiredId)
    {directory : Slot} {record : directory.Record} (admits : Admits p scope world directory requestId record) :
    (world.journal.memorize directory requestId record).Retired retiredId := by
  cases admits with
  | @reservation request fence nowUnixMs passed checked =>
    have admitted := reserveCheck_none checked
    have different : retiredId ≠ request.core.requestId := by
      rintro rfl
      obtain ⟨tombstone, found, identified⟩ := retired.tombstoned
      exact admitted.notRetired tombstone found identified
    refine { retired with notReserved := ?_ }
    exact (AList.lookup_insert_ne different).trans retired.notReserved
  | @prepared request result fence nowUnixMs answered checked =>
    obtain ⟨reservation, reserved, _⟩ := (preparedCheck_ok checked).1.reserved
    have different : retiredId ≠ request.core.requestId := by
      rintro rfl
      rw [retired.notReserved] at reserved
      cases reserved
    refine { retired with notPrepared := ?_ }
    exact (AList.lookup_insert_ne different).trans retired.notPrepared
  | @commit request fence nowUnixMs commit passed settled checked =>
    have admitted := commitCheck_inr checked
    obtain ⟨prepared, found, _⟩ := admitted.prepared
    refine { retired with notPending := fun other pending => ?_ }
    cases pending
    rw [admitted.request_eq]
    rintro rfl
    rw [retired.notPrepared] at found
    cases found
  | @tombstone requestId nowUnixMs retention result tombstone checked =>
    have completed := (retireCheck_cases checked).1
    have different : retiredId ≠ requestId := by
      rintro rfl
      rw [retired.notCompleted] at completed
      cases completed
    obtain ⟨existing, found, identified⟩ := retired.tombstoned
    refine { retired with tombstoned := ⟨existing, ?_, identified⟩ }
    exact (AList.lookup_insert_ne different).trans found
  | staged | ack => exact { retired with }

/-- No small step brings a retired request back. -/
theorem Micro.retired {world after : World}
    (retired : world.journal.Retired retiredId) (step : Micro p scope tearing world after) :
    after.journal.Retired retiredId := by
  have activated : ∀ {stored : World} {commit : CommitRecordV2} {journal : Journal},
      world.journal.pendingActivation = some commit →
      world.journal.applyActive p commit.request commit.result = .ok journal →
      (stored.applied commit journal).journal.Retired retiredId := by
    intro stored commit journal pending applied
    have different := retired.notPending commit pending
    obtain ⟨_, ⟨_, rfl⟩ | ⟨_, _, rfl⟩⟩ := applyActive_ok applied
    · exact { retired with notPending := fun other found => by cases found }
    · refine { retired with
        notCompleted := (AList.lookup_insert_ne different.symm).trans retired.notCompleted
        notPending := fun other found => by cases found }
  cases step with
  | record admits free =>
    change ((World.putSlot ..).journal.memorize ..).Retired _
    rw [World.putSlot_journal]
    exact retired.memorize admits
  | activate pending receiptValid absent applied | reactivate pending receiptValid agrees applied =>
    exact activated pending applied
  | forget retiring unlinked =>
    refine { retired with notReserved := ?_, notPrepared := ?_, notCompleted := ?_ }
    · exact (Table.lookup_erase_eq ..).trans (by rw [retired.notReserved, ite_self])
    · exact (Table.lookup_erase_eq ..).trans (by rw [retired.notPrepared, ite_self])
    · exact (Table.lookup_erase_eq ..).trans (by rw [retired.notCompleted, ite_self])
  | tear | stray | strayActive | jam | display | payload | unlinkFragment | unlinkSlot => exact retired

theorem Path.retired {world after : World}
    (retired : world.journal.Retired retiredId) (path : Path p scope tearing world after) :
    after.journal.Retired retiredId :=
  Path.invariant (fun _ _ held step => step.retired held) retired path

variable {result : AuthenticatedResultV2} {nowUnixMs retryRetentionMs : UInt64} {faults : FileOp → Fault} {removed : ℕ}
  {events : List (Event p)} {start finish : World} {journal : Journal}

/-- Forgetting a tombstoned request retires it. -/
theorem World.Filed.forget_retired (filed : world.Filed p) (retiring : world.Retiring requestId result) :
    (world.journal.forget requestId).Retired requestId where
  tombstoned := by
    obtain ⟨tombstone, found⟩ := Option.isSome_iff_exists.mp retiring.tombstoned
    exact ⟨tombstone, found, (filed.tombstones requestId tombstone found).1⟩
  notReserved := AList.lookup_erase ..
  notPrepared := AList.lookup_erase ..
  notCompleted := AList.lookup_erase ..
  notPending := by
    intro commit pending same
    have notCompleted := (filed.pending commit pending).1
    rw [same, retiring.completed] at notCompleted
    cases notCompleted

/-- The cleanup after the tombstone retires the request when it answers. -/
theorem cleanup_retires (faults : FileOp → Fault) (filed : world.Filed p)
    (retiring : world.Retiring requestId result) {kept : List String}
    (sameProtected : world.journal.protectedDigests requestId = kept) :
    (do
      let removed ← removeFragments faults kept result.core.fragments
      forM [Slot.reservations, .prepared, .staged, .acks] (removeSlot p faults requestId)
      syncRoot faults
      .modify (·.setJournal (·.forget requestId))
      pure removed : Prog World VerifierV2Error ℕ).Ensures world fun answer after =>
        ∀ removed, answer = .ok removed → after.journal.Retired requestId := by
  have fragments := removeFragments_ensures (p := p) ⟨[], [], []⟩ faults (List.Subset.refl result.core.fragments) retiring
  rw [sameProtected] at fragments
  refine fragments.bind ?_ (fun _ _ _ => by simp)
  rintro removed cleared ⟨path, journals⟩
  have retiring' : cleared.Retiring requestId result := ⟨journals ▸ retiring.1, journals ▸ retiring.2⟩
  have filed' : cleared.Filed p := Path.invariant (fun _ _ held step => step.filed held) filed path
  have slots := removeSlots_ensures (p := p) ⟨[], [], []⟩ faults (List.Subset.refl retiredSlots) retiring'
  refine slots.bind ?_ (fun _ _ _ => by simp)
  rintro _ unlinked ⟨path', journals', _, _⟩
  have retired : unlinked.Retiring requestId result := ⟨journals' ▸ retiring'.1, journals' ▸ retiring'.2⟩
  have filed'' : unlinked.Filed p := Path.invariant (fun _ _ held step => step.filed held) filed' path'
  unfold syncRoot
  cases faults .syncRoot with
  | done => exact fun _ _ => filed''.forget_retired retired
  | failed | torn written => exact fun _ answered => by cases answered

/-- A `garbage_collect` that answers has retired its request. -/
theorem garbageCollect_retires (filed : world.Filed p)
    (collected : (garbageCollect p faults requestId nowUnixMs retryRetentionMs world).1 = .ok removed) :
    (garbageCollect p faults requestId nowUnixMs retryRetentionMs world).2.journal.Retired requestId := by
  have ensured : (garbageCollect p faults requestId nowUnixMs retryRetentionMs).Ensures world fun answer after =>
      ∀ removed, answer = .ok removed → after.journal.Retired requestId := by
    unfold garbageCollect
    rw [Prog.ensures_read_bind]
    refine Prog.ensures_lift_bind (fun _ _ => by simp) fun outcome checked => ?_
    obtain ⟨result, tombstone⟩ := outcome
    obtain ⟨completed, published⟩ := retireCheck_cases checked
    rcases published with ⟨rfl, existing, tombstoned, _⟩ | ⟨rfl, _, _⟩
    · exact cleanup_retires faults filed ⟨completed, by simp [tombstoned]⟩ rfl
    · change ((publishTombstone p faults requestId (some _)) >>= fun _ => _).Ensures world _
      rw [publishTombstone, Prog.bind_assoc]
      refine (writeSlot_ensures faults .tombstones requestId _ world).bind ?_ (fun _ _ _ => by simp)
      rintro _ stored ⟨free, rfl⟩
      have admits : Admits p ⟨[], [], []⟩ world .tombstones requestId _ := .tombstone checked
      rw [Prog.ensures_modify_bind]
      refine cleanup_retires faults (filed.record admits free) ⟨?_, ?_⟩ ?_
      · change (World.putSlot ..).journal.completions.lookup _ = _
        rw [World.putSlot_journal]
        exact completed
      · change (((World.putSlot ..).journal.tombstones.insert _ _).lookup _).isSome = true
        simp
      · change (World.putSlot ..).journal.protectedDigests requestId = _
        rw [World.putSlot_journal]
  exact ensured removed collected

theorem garbageCollect_completed
    (collected : (garbageCollect p faults requestId nowUnixMs retryRetentionMs world).1 = .ok removed) :
    ∃ result, world.journal.completions.lookup requestId = some result := by
  unfold garbageCollect at collected
  rw [Prog.bind_read] at collected
  cases checked : world.journal.retireCheck p requestId nowUnixMs retryRetentionMs with
  | error failure =>
    rw [checked, Prog.bind_lift_error] at collected
    cases collected
  | ok outcome => exact ⟨outcome.1, (retireCheck_cases checked).1⟩

/-- The journal refuses to reserve a request. `reserve` has two guards before it looks at the request: no
activation may be pending, and the round must authenticate. -/
def World.RequiresResync (p : Primitives) (world : World) (requestId : String) : Prop :=
  ∀ faults request fence nowUnixMs, request.core.requestId = requestId → world.journal.pendingActivation = none →
    request.verifyHistorical p world.journal.session.core world.journal.key = .ok () →
    (reserve p faults request fence nowUnixMs world).1 = .error .resyncRequired

/-- How the journal treats a request that is gone from its memory. -/
structure World.Gone (p : Primitives) (world : World) (requestId : String) : Prop where
  completed : world.journal.completedResult requestId = none
  acknowledge : ∀ faults appliedHeadSha256 nowUnixMs, ∃ failure,
    (Verifier.acknowledge p faults requestId appliedHeadSha256 nowUnixMs world).1 = .error failure
  commit : ∀ faults request fence renderer nowUnixMs, request.core.requestId = requestId → ∃ failure,
    (commitAndActivate p faults request fence renderer nowUnixMs world).1 = .error failure

/-- The journal remembers the retirement of a request. -/
def Journal.Tombstoned (journal : Journal) (requestId : String) : Prop :=
  ∃ tombstone, journal.tombstones.lookup requestId = some tombstone ∧ tombstone.requestId = requestId

theorem Journal.Tombstoned.requiresResync
    (tombstoned : world.journal.Tombstoned requestId) : world.RequiresResync p requestId := by
  rintro faults request fence nowUnixMs rfl settled verified
  obtain ⟨tombstone, found, identified⟩ := tombstoned
  have refused : world.journal.reserveCheck p request fence nowUnixMs = .error .resyncRequired := by
    simp [Journal.reserveCheck, settled, verified, found, identified, reject, bind, Except.bind]
  unfold reserve
  rw [Prog.bind_read, refused, Prog.bind_lift_error]

/-- A tombstone is never forgotten. -/
theorem Micro.tombstoned {world after : World}
    (tombstoned : world.journal.Tombstoned requestId) (step : Micro p scope tearing world after) :
    after.journal.Tombstoned requestId := by
  have activated : ∀ {stored : World} {commit : CommitRecordV2} {journal : Journal},
      world.journal.applyActive p commit.request commit.result = .ok journal →
      (stored.applied commit journal).journal.Tombstoned requestId := by
    intro stored commit journal applied
    obtain ⟨_, ⟨_, rfl⟩ | ⟨_, _, rfl⟩⟩ := applyActive_ok applied
    · exact tombstoned
    · exact tombstoned
  cases step with
  | record admits free =>
    change ((World.putSlot ..).journal.memorize ..).Tombstoned _
    rw [World.putSlot_journal]
    cases admits with
    | tombstone checked =>
      obtain ⟨existing, found, identified⟩ := tombstoned
      refine ⟨existing, (AList.lookup_insert_ne ?_).trans found, identified⟩
      rintro rfl
      rcases (retireCheck_cases checked).2 with ⟨published, _⟩ | ⟨_, fresh, _⟩
      · cases published
      · rw [fresh] at found
        cases found
    | reservation | prepared | staged | commit | ack => exact tombstoned
  | activate pending receiptValid absent applied | reactivate pending receiptValid agrees applied => exact activated applied
  | tear | stray | strayActive | jam | display | payload | unlinkFragment | unlinkSlot | forget => exact tombstoned

/-- Not even by a restart, which reads it back from its file. -/
theorem run_tombstoned
    (filed : start.Filed p) (tombstoned : start.journal.Tombstoned requestId) (ran : run events start = some finish) :
    finish.journal.Tombstoned requestId := by
  have kept := @run_invariant p events (fun world => world.Filed p ∧ world.journal.Tombstoned requestId) start finish
    ?_ ⟨filed, tombstoned⟩ ran
  · exact kept.2
  · rintro event member world after ⟨filed, held⟩ stepped
    refine ⟨filed.step stepped, ?_⟩
    cases event with
    | call operation faults =>
      cases stepped
      exact Path.invariant (fun _ _ earlier step => step.tombstoned earlier) held
        (operation.exec_path_own faults world)
    | reopen expectedKeyId minimumEpoch =>
      obtain ⟨journal, opened, rfl⟩ := Event.step_reopen stepped
      obtain ⟨tombstone, found, identified⟩ := held
      have stored := (filed.tombstones requestId tombstone found).2
      exact ⟨tombstone, ((openJournal_ok opened).tombstones requestId tombstone).mpr stored, identified⟩

theorem Journal.Retired.ack_refused (retired : journal.Retired requestId)
    (appliedHeadSha256 : String) (nowUnixMs : UInt64) :
    ∃ failure, journal.ackCheck p requestId appliedHeadSha256 nowUnixMs = .error failure := by
  rw [Journal.ackCheck, retired.notCompleted]
  cases validateDigest "applied head" appliedHeadSha256 with
  | error failure => exact ⟨failure, rfl⟩
  | ok _ => exact ⟨_, rfl⟩

theorem Journal.Retired.commit_refused {request : AuthenticatedRoundV2}
    (retired : journal.Retired request.core.requestId) (fence : AuthorityFenceV2) (nowUnixMs : UInt64) :
    ∃ failure, journal.commitCheck p request fence nowUnixMs = .error failure := by
  rw [Journal.commitCheck, retired.notCompleted, retired.notPrepared]
  cases journal.checkLiveFence fence nowUnixMs with
  | error failure => exact ⟨failure, rfl⟩
  | ok _ => exact ⟨_, rfl⟩

theorem Journal.Retired.gone (retired : world.journal.Retired requestId) :
    world.Gone p requestId where
  completed := retired.notCompleted
  acknowledge := by
    intro faults appliedHeadSha256 nowUnixMs
    obtain ⟨failure, refused⟩ := retired.ack_refused (p := p) appliedHeadSha256 nowUnixMs
    refine ⟨failure, ?_⟩
    unfold Verifier.acknowledge
    rw [Prog.bind_read, refused, Prog.bind_lift_error]
  commit := by
    rintro faults request fence renderer nowUnixMs rfl
    unfold commitAndActivate
    cases recovered : recoverPending p faults renderer nowUnixMs world with
    | mk answer middle =>
      cases answer with
      | error failure => exact ⟨failure, by rw [Prog.bind_of_error recovered]⟩
      | ok _ =>
        have path : Path p ⟨[], [], []⟩ (Tearing faults) world middle := by
          have reached : Reaches p ⟨[], [], []⟩ (Tearing faults) (recoverPending p faults renderer nowUnixMs) world :=
            recoverPending_reaches ..
          rw [Reaches, Prog.Ensures, recovered] at reached
          exact reached
        obtain ⟨failure, refused⟩ := (Path.retired retired path).commit_refused (p := p) fence nowUnixMs
        refine ⟨failure, ?_⟩
        rw [Prog.bind_of_ok recovered, Prog.bind_read, refused, Prog.bind_lift_error]

/-- Along the calls of one journal a retired request stays retired. -/
theorem run_retired (calls : ∀ event ∈ events, event.isReopen = false) (retired : start.journal.Retired requestId)
    (ran : run events start = some finish) : finish.journal.Retired requestId := by
  refine @run_invariant p events (fun world => world.journal.Retired requestId) start finish ?_ retired ran
  intro event member world after held stepped
  cases event with
  | reopen expectedKeyId minimumEpoch => simpa [Event.isReopen] using calls _ member
  | call operation faults =>
    cases stepped
    exact Path.retired held (operation.exec_path_own faults world)

/-- The transcript of a completed request turns into a completion at the next `open`. -/
theorem reopen_completes {world reopened : World} {commit : CommitRecordV2}
    {active : ActiveRecordV2} (committed : world.disk.Holds p .commits requestId commit)
    (activated : world.disk.Holds p .active requestId active) {expectedKeyId : String} {minimumEpoch : UInt64}
    (stepped : (Event.reopen (p := p) expectedKeyId minimumEpoch).step world = some reopened) :
    reopened.journal.completedResult requestId = some commit.result := by
  obtain ⟨journal, opened, rfl⟩ := Event.step_reopen stepped
  exact ((openJournal_ok opened).completions requestId commit.result).mpr ⟨commit, active, committed, rfl, activated⟩

/-- A request whose retirement has answered requires a resync for ever. It is gone from memory until the
journal is reopened; the `open` completes it again from the retained transcript. -/
theorem retired_until_reopened {session : AuthenticatedSessionV2} {key : MacKey} {createdUnixMs : UInt64}
    {expectedKeyId requestId : String} {minimumEpoch nowUnixMs retryRetentionMs : UInt64} {start world finish : World}
    {events later : List (Event p)} {faults : FileOp → Fault} {removed : ℕ}
    (created : create p session key createdUnixMs expectedKeyId minimumEpoch = .ok start)
    (ran : run events start = some world)
    (collected : (garbageCollect p faults requestId nowUnixMs retryRetentionMs world).1 = .ok removed)
    (continued : run later (garbageCollect p faults requestId nowUnixMs retryRetentionMs world).2 = some finish) :
    finish.RequiresResync p requestId ∧
      ((∀ event ∈ later, event.isReopen = false) → finish.Gone p requestId) ∧
      ∀ expectedKeyId minimumEpoch reopened,
        (Event.reopen (p := p) expectedKeyId minimumEpoch).step finish = some reopened →
          ∃ result, world.journal.completedResult requestId = some result ∧
            reopened.journal.completedResult requestId = some result := by
  obtain ⟨_, rfl⟩ := create_ok created
  have filed : world.Filed p := run_filed (filed_create session key) ran
  have retired := garbageCollect_retires filed collected
  have stepped : (Event.call (.garbageCollect requestId nowUnixMs retryRetentionMs) faults).step (p := p) world =
    some (garbageCollect p faults requestId nowUnixMs retryRetentionMs world).2 := rfl
  refine ⟨?_, fun calls => (run_retired calls retired continued).gone, fun keyId epoch reopened restarted => ?_⟩
  · exact (run_tombstoned (filed.step stepped) retired.tombstoned continued).requiresResync
  · -- The retirement found a completion, whose files outlive it.
    obtain ⟨result, completed⟩ := garbageCollect_completed collected
    obtain ⟨commit, active, committed, rfl, activated⟩ := filed.completed requestId result completed
    have whole : run (.call (.garbageCollect requestId nowUnixMs retryRetentionMs) faults :: later) world =
        some finish := continued
    exact ⟨commit.result, completed, reopen_completes (committed.mono (run_keeps whole (by decide)))
      (activated.mono (run_keeps whole (by decide))) restarted⟩

/-- The retirement of a finished round, in a sound file system. -/
private abbrev collectFirst (world : World) : Except VerifierV2Error ℕ × World :=
  garbageCollect Sample.primitives Sample.sound "first" 500 100 world

/-- What is there after the finished round was collected and the journal was opened again. -/
private def reopenedWorld : World :=
  ((run Sample.firstRound Sample.start).bind fun world =>
    if (collectFirst world).1 = .ok 1 then
      (run (p := Sample.primitives) [.reopen "key" 0] (collectFirst world).2).filter fun finish =>
        decide (finish.journal.completedResult "first" ≠ none)
    else none).get (by decide +kernel)

private theorem first_round_retires_and_returns : ∃ world finish, run Sample.firstRound Sample.start = some world ∧
    (collectFirst world).1 = .ok 1 ∧
    run (p := Sample.primitives) [.reopen "key" 0] (collectFirst world).2 = some finish ∧
    finish.journal.completedResult "first" ≠ none := by
  have got : ((run Sample.firstRound Sample.start).bind fun world => _) = some reopenedWorld := (Option.some_get _).symm
  obtain ⟨world, ran, got⟩ := Option.bind_eq_some_iff.mp got
  split at got
  · next collected =>
    obtain ⟨reopened, returned⟩ := Option.filter_eq_some_iff.mp got
    exact ⟨world, reopenedWorld, ran, collected, reopened, of_decide_eq_true returned⟩
  · cases got

theorem retired_until_reopened_first_round : ∃ world finish, run Sample.firstRound Sample.start = some world ∧
    (collectFirst world).1 = .ok 1 ∧
    run (p := Sample.primitives) [.reopen "key" 0] (collectFirst world).2 = some finish ∧
    finish.RequiresResync Sample.primitives "first" := by
  obtain ⟨world, finish, ran, collected, reopened, _⟩ := first_round_retires_and_returns
  exact ⟨world, finish, ran, collected, reopened,
    (retired_until_reopened Sample.created ran collected reopened).1⟩

/-- The retired request of a finished round is completed again after a restart. -/
theorem reopened_request_returns : ∃ world finish, run Sample.firstRound Sample.start = some world ∧
    (collectFirst world).1 = .ok 1 ∧
    run (p := Sample.primitives) [.reopen "key" 0] (collectFirst world).2 = some finish ∧
    ¬finish.Gone Sample.primitives "first" := by
  obtain ⟨world, finish, ran, collected, reopened, returned⟩ := first_round_retires_and_returns
  exact ⟨world, finish, ran, collected, reopened, fun gone => returned gone.completed⟩

end Muser.Verifier
