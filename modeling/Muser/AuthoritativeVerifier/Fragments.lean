import Muser.AuthoritativeVerifier.Chain
import Muser.AuthoritativeVerifier.Filed

/-! # Retention of fragment payloads

Payloads are shared by content between results. A retirement unlinks a payload only when no other
completion and no prepared result in memory names it, so the payloads of every live result are in
place at every point of every history. Across a restart the protected set is rebuilt from the
files: a pending commit keeps its prepared record until it is tombstoned.
-/

namespace Muser.Verifier

variable {p : Primitives} {scope : Scope}

variable {result : AuthenticatedResultV2} {before after : Disk}

variable {disk : Disk} {directory : Slot} {stem : String} {world : World}

/-- All payloads of a result are stored with the bytes their descriptors commit to. -/
theorem verifyFragmentCas_ok_iff :
    verifyFragmentCas p disk result = .ok () ↔ ∀ descriptor ∈ result.core.fragments, ∃ payload,
      disk.fragments.lookup descriptor.sha256 = some payload ∧ descriptor.Describes p payload := by
  rw [verifyFragmentCas, forM_eq_ok_iff]
  refine forall₂_congr fun descriptor _ => ?_
  unfold verifyFragment
  cases disk.fragments.lookup descriptor.sha256 with
  | none => simp
  | some payload =>
    simp only [check_eq_ok_iff, reject_eq_ok_iff, bne_eq_false_iff_eq, Option.some.injEq, exists_eq_left']
    rfl

/-- Payloads that stay in place keep a result complete. -/
theorem verifyFragmentCas_mono (complete : verifyFragmentCas p before result = .ok ())
    (keeps : ∀ digest ∈ result.core.fragments.map (·.sha256), ∀ payload,
      before.fragments.lookup digest = some payload → after.fragments.lookup digest = some payload) :
    verifyFragmentCas p after result = .ok () := by
  rw [verifyFragmentCas_ok_iff] at complete ⊢
  intro descriptor member
  obtain ⟨payload, stored, described⟩ := complete descriptor member
  exact ⟨payload, keeps _ (List.mem_map_of_mem member) payload stored, described⟩

/-- The payloads of every completed, staged or pending result that is not retired are in place. -/
structure World.Retains (p : Primitives) (world : World) : Prop where
  completed : ∀ requestId result, world.journal.completions.lookup requestId = some result →
    world.journal.tombstones.lookup requestId = none → verifyFragmentCas p world.disk result = .ok ()
  staged : ∀ requestId record, world.journal.staged.lookup requestId = some record →
    ∃ prepared, world.journal.prepared.lookup requestId = some prepared ∧
      (world.journal.tombstones.lookup requestId = none → verifyFragmentCas p world.disk prepared.result = .ok ())
  pending : ∀ commit, world.journal.pendingActivation = some commit →
    world.journal.tombstones.lookup commit.request.core.requestId = none →
    verifyFragmentCas p world.disk commit.result = .ok ()

/-- Some file has a name in a directory. -/
def Disk.Occupied (disk : Disk) (directory : Slot) (stem : String) : Prop :=
  ((disk.slots directory).lookup stem).isSome = true

theorem Disk.Occupied.mono (occupied : before.Occupied directory stem) (keeps : before.Keeps after directory) :
    after.Occupied directory stem := by
  obtain ⟨file, found⟩ := Option.isSome_iff_exists.mp occupied
  rw [Disk.Occupied, keeps stem file found]
  rfl

/-- A prepared result has its file, or has been retired since. -/
def Disk.Backs (disk : Disk) (stem : String) (result : AuthenticatedResultV2) : Prop :=
  (∃ envelope : JournalEnvelopeV2 PreparedRecordV2,
    (disk.slots .prepared).lookup stem = some (.whole envelope) ∧ envelope.payload.result = result) ∨
      disk.Occupied .tombstones stem

theorem Disk.Backs.mono (backs : before.Backs stem result) (prepared : before.Keeps after .prepared)
    (tombstones : before.Keeps after .tombstones) : after.Backs stem result := by
  rcases backs with ⟨envelope, stored, same⟩ | retired
  · exact .inl ⟨envelope, prepared _ _ stored, same⟩
  · exact .inr (retired.mono tombstones)

/-- The invariant behind retention: what protects a payload in memory is also on file. -/
structure World.Guarded (p : Primitives) (world : World) : Prop where
  filed : world.Filed p
  retains : world.Retains p
  protects : ∀ commit, world.journal.pendingActivation = some commit →
    world.journal.tombstones.lookup commit.request.core.requestId = none →
    ∃ prepared, world.journal.prepared.lookup commit.request.core.requestId = some prepared ∧
      prepared.result = commit.result
  backed : ∀ requestId prepared, world.journal.prepared.lookup requestId = some prepared →
    world.disk.Backs (slotStem p requestId) prepared.result
  commits : ∀ stem envelope, (world.disk.slots .commits).lookup stem = some (.whole envelope) →
    world.disk.Occupied .active stem ∨ world.disk.Backs stem envelope.payload.result

namespace World.Guarded

/-- Steps that leave the memory alone and unlink nothing. -/
theorem frame {world after : World} (guarded : world.Guarded p) (filed : after.Filed p)
    (journals : after.journal = world.journal)
    (fragments : ∀ digest payload, world.disk.fragments.lookup digest = some payload →
      after.disk.fragments.lookup digest = some payload) (keeps : ∀ directory, world.disk.Keeps after.disk directory)
    (commits : ∀ stem envelope, (after.disk.slots .commits).lookup stem = some (.whole envelope) →
      (world.disk.slots .commits).lookup stem = some (.whole envelope) ∨
        after.disk.Backs stem envelope.payload.result) : after.Guarded p where
  filed := filed
  retains := by
    have complete : ∀ {result : AuthenticatedResultV2}, verifyFragmentCas p world.disk result = .ok () →
        verifyFragmentCas p after.disk result = .ok () :=
      fun before => verifyFragmentCas_mono before fun digest _ => fragments digest
    obtain ⟨completed, staged, pending⟩ := guarded.retains
    rw [← journals] at completed staged pending
    refine ⟨fun requestId result found live => complete (completed requestId result found live),
      fun requestId record found => ?_, fun commit found live => complete (pending commit found live)⟩
    obtain ⟨prepared, lookup, cas⟩ := staged requestId record found
    exact ⟨prepared, lookup, fun live => complete (cas live)⟩
  protects := journals ▸ guarded.protects
  backed requestId prepared found :=
    (guarded.backed requestId prepared (journals ▸ found)).mono (keeps .prepared) (keeps .tombstones)
  commits stem envelope found := by
    rcases commits stem envelope found with earlier | backs
    · exact (guarded.commits stem envelope earlier).imp (·.mono (keeps .active))
        (·.mono (keeps .prepared) (keeps .tombstones))
    · exact .inr backs

/-- A file that is not a commit joins its directory. -/
theorem placeSlot {world : World} (guarded : world.Guarded p) {directory : Slot} {requestId : String}
    {file : SlotFile directory.Record} (absent : world.file p directory requestId = none)
    (different : Slot.commits ≠ directory) :
    (world.placeSlot directory (slotStem p requestId) file).Guarded p := by
  refine guarded.frame (guarded.filed.placeSlot absent file) rfl (fun _ _ found =>
    found) (World.keeps_placeSlot absent file) ?_
  intro stem envelope found
  rw [World.placeSlot_slots_of_ne _ _ _ different] at found
  exact .inl found

variable {world : World} {commit : CommitRecordV2} {requestId : String}

variable {request : AuthenticatedRoundV2} {journal : Journal}

/-- The commit about to be written has its prepared record on file. -/
theorem backs_of_commitCheck (guarded : world.Guarded p) (admitted : CommitAdmitted p world.journal request commit) :
    world.disk.Backs (slotStem p request.core.requestId) commit.result := by
  obtain ⟨prepared, found, same, _⟩ := admitted.prepared
  exact same ▸ guarded.backed _ prepared found

/-- A commit file joins its directory. -/
theorem placeCommit (guarded : world.Guarded p) (absent : world.file p .commits requestId = none)
    (backs : world.disk.Backs (slotStem p requestId) commit.result) :
    (world.placeSlot .commits (slotStem p requestId) (.whole (sealed p world.journal .commits commit))).Guarded p := by
  have keeps := World.keeps_placeSlot absent (.whole (sealed p world.journal .commits commit))
  refine guarded.frame (guarded.filed.placeSlot absent _) rfl (fun _ _ found => found) keeps
    fun stem envelope found => ?_
  refine (World.whole_placeSlot found).imp_right fun ⟨same, is⟩ => ?_
  cases is
  rw [same]
  exact backs.mono (keeps .prepared) (keeps .tombstones)

theorem tear (guarded : world.Guarded p) {directory : Slot} {bytes : Bytes}
    (absent : world.file p directory requestId = none) :
    (world.placeSlot directory (slotStem p requestId) (.torn bytes)).Guarded p := by
  exact guarded.frame (guarded.filed.placeSlot absent _) rfl (fun _ _ found => found) (World.keeps_placeSlot absent _)
    fun _ _ found => .inl (World.whole_of_torn found)

theorem stray {world : World} (guarded : world.Guarded p) {directory : Slot} {requestId : String}
    {record : directory.Record} (admits : Admits p scope world directory requestId record)
    (absent : world.file p directory requestId = none) :
    (world.placeSlot directory (slotStem p requestId) (.whole (sealed p world.journal directory record))).Guarded
      p := by
  cases admits with
  | commit passed settled checked =>
    exact guarded.placeCommit absent (guarded.backs_of_commitCheck (commitCheck_inr checked))
  | reservation | prepared | staged | ack | tombstone => exact guarded.placeSlot absent (by decide)

/-- The file of an accepted record, before the memory changes. -/
theorem putSlot (guarded : world.Guarded p) {directory : Slot}
    {record : directory.Record} (admits : Admits p scope world directory requestId record) :
    (world.putSlot p directory requestId record).Guarded p := by
  cases found : world.file p directory requestId with
  | none =>
    rw [World.putSlot, found]
    exact guarded.stray admits found
  | some file =>
    rw [World.putSlot, found]
    exact guarded

/-- The payloads of a staged result are in place. -/
theorem staged_complete {disk : Disk}
    {closure : VerifiedClosureV2 p} {prepared : PreparedRecordV2} {receipt : Option RendererStageReceiptV2}
    (checked : journal.stageCheck p request closure = .ok (prepared, receipt)) (stored : ∀ fragment ∈ closure.fragments,
      disk.fragments.lookup fragment.descriptor.sha256 = some fragment.payload) :
    verifyFragmentCas p disk prepared.result = .ok () := by
  obtain ⟨_, verified, _⟩ := stageCheck_ok checked
  rw [verifyFragmentCas_ok_iff, ← VerifiedClosureV2.verifyResult_descriptors verified]
  intro descriptor member
  obtain ⟨fragment, present, rfl⟩ := List.mem_map.mp member
  exact ⟨fragment.payload, stored fragment present, closure.described fragment present⟩

/-- A record is stored and remembered. -/
theorem record {world : World} (guarded : world.Guarded p) {directory : Slot} {requestId : String}
    {record : directory.Record} (admits : Admits p scope world directory requestId record)
    (free : world.Free p directory requestId record) :
    ((world.putSlot p directory requestId record).setJournal (·.memorize directory requestId record)).Guarded p := by
  have filed := guarded.filed.record admits free
  have stored := guarded.putSlot admits
  have journals : (world.putSlot p directory requestId record).journal = world.journal := putSlot_journal ..
  cases admits with
  | reservation | ack => exact ⟨filed, ⟨stored.retains.1, stored.retains.2, stored.retains.3⟩, stored.protects,
      stored.backed, stored.commits⟩
  | @prepared request result fence nowUnixMs answered checked =>
    obtain ⟨admitted, unprepared⟩ := preparedCheck_ok checked
    -- Nothing staged or pending has this id yet, since it would be prepared.
    have fresh : (World.putSlot p world .prepared request.core.requestId
        ⟨request.intentSha256 p, result, nowUnixMs⟩).journal.prepared.lookup request.core.requestId = none := by
      rw [journals]
      exact unprepared rfl
    refine ⟨filed, ⟨stored.retains.1, fun other staged found => ?_, stored.retains.3⟩, fun commit found live => ?_,
      fun other prepared found => ?_, stored.commits⟩
    · obtain ⟨existing, lookup, complete⟩ := stored.retains.staged other staged found
      exact ⟨existing, Table.lookup_insert_fresh fresh lookup, complete⟩
    · obtain ⟨existing, lookup, same⟩ := stored.protects commit found live
      exact ⟨existing, Table.lookup_insert_fresh fresh lookup, same⟩
    · change ((World.putSlot ..).journal.prepared.insert _ _).lookup other = some prepared at found
      rcases Table.lookup_insert_cases found with ⟨rfl, rfl⟩ | ⟨-, found⟩
      · have identified : result.core.requestId = request.core.requestId :=
          (AuthenticatedResultV2.verifyAgainst_answers admitted.verified).requestId
        obtain ⟨envelope, lookup, payload, _⟩ := World.holds_putSlot free identified
        exact .inl ⟨envelope, lookup, by rw [payload]⟩
      · exact stored.backed other prepared found
  | @staged request closure prepared receipt nowUnixMs passed checked present receiptValid =>
    refine ⟨filed, ⟨stored.retains.1, fun other staged found => ?_, stored.retains.3⟩, stored.protects, stored.backed,
      stored.commits⟩
    change ((World.putSlot ..).journal.staged.insert _ _).lookup other = some staged at found
    rcases Table.lookup_insert_cases found with ⟨rfl, rfl⟩ | ⟨-, found⟩
    · refine ⟨prepared, ?_, fun _ => staged_complete checked ?_⟩
      · change (World.putSlot ..).journal.prepared.lookup _ = _
        rw [putSlot_journal]
        exact (stageCheck_ok checked).1
      · intro fragment member
        change (World.putSlot ..).disk.fragments.lookup _ = _
        rw [putSlot_fragments]
        exact present fragment member
    · exact stored.retains.staged other staged found
  | @commit request fence nowUnixMs commit passed settled checked =>
    have admitted := commitCheck_inr checked
    obtain ⟨prepared, found, same, _⟩ := admitted.prepared
    obtain ⟨staged, stage, _⟩ := admitted.staged
    refine ⟨filed, ⟨stored.retains.1, stored.retains.2, fun other pending live => ?_⟩, fun other pending live => ?_,
      stored.backed, stored.commits⟩
    · cases pending
      rw [admitted.request_eq] at live
      obtain ⟨existing, lookup, complete⟩ := stored.retains.staged request.core.requestId staged (journals ▸ stage)
      rw [journals, found] at lookup
      cases lookup
      exact same ▸ complete live
    · cases pending
      refine ⟨prepared, ?_, same⟩
      change (World.putSlot ..).journal.prepared.lookup _ = _
      rw [putSlot_journal, admitted.request_eq]
      exact found
  | tombstone checked =>
    refine ⟨filed, ⟨fun other result found unretired => ?_, fun other staged found => ?_,
      fun commit found unretired => ?_⟩, fun commit found unretired => ?_, stored.backed, stored.commits⟩
    · exact stored.retains.completed other result found (Table.lookup_insert_eq_none unretired).2
    · obtain ⟨existing, lookup, complete⟩ := stored.retains.staged other staged found
      exact ⟨existing, lookup, fun unretired => complete (Table.lookup_insert_eq_none unretired).2⟩
    · exact stored.retains.pending commit found (Table.lookup_insert_eq_none unretired).2
    · exact stored.protects commit found (Table.lookup_insert_eq_none unretired).2

/-- The pending commit is activated. -/
theorem applied {world stored : World} (guarded : stored.Guarded p) (journals : stored.journal = world.journal)
    (pending : world.journal.pendingActivation = some commit)
    (applied : world.journal.applyActive p commit.request commit.result = .ok journal)
    (filed : (stored.applied commit journal).Filed p) : (stored.applied commit journal).Guarded p := by
  rw [← journals] at pending applied
  have notCompleted := (guarded.filed.pending commit pending).1
  obtain rfl := applyActive_fresh notCompleted applied
  refine ⟨filed, ⟨fun requestId result found live => ?_, guarded.retains.staged, fun other found => by cases found⟩,
    fun other found => (by cases found), guarded.backed, guarded.commits⟩
  change (stored.journal.completions.insert _ _).lookup requestId = some result at found
  rcases Table.lookup_insert_cases found with ⟨rfl, rfl⟩ | ⟨-, found⟩
  · exact guarded.retains.pending commit pending live
  · exact guarded.retains.completed requestId result found live

/-- Every live result other than the retiring one is protected. -/
theorem unlinkFragment (guarded : world.Guarded p) {requestId digest : String}
    {result : AuthenticatedResultV2} (retiring : world.Retiring requestId result)
    (unprotected : digest ∉ world.journal.protectedDigests requestId) :
    (world.setFragments (world.disk.fragments.erase digest)).Guarded p := by
  have filed : (world.setFragments (world.disk.fragments.erase digest)).Filed p :=
    guarded.filed.frame rfl rfl rfl (fun _ _ _ _ found => found)
  have live : ∀ {other : String}, world.journal.tombstones.lookup other = none → other ≠ requestId := by
    rintro other unretired rfl
    have tombstoned := retiring.tombstoned
    rw [unretired] at tombstoned
    cases tombstoned
  have completed : ∀ {other : String} {kept : AuthenticatedResultV2}, other ≠ requestId →
      world.journal.completions.lookup other = some kept → digest ∉ kept.core.fragments.map (·.sha256) := by
    intro other kept different found named
    refine unprotected (List.mem_append_left _ (List.mem_flatMap.mpr ⟨⟨other, kept⟩, ?_, named⟩))
    exact List.mem_filter.mpr ⟨Table.mem_of_lookup found, by simpa using different⟩
  have prepared : ∀ {other : String} {kept : PreparedRecordV2}, other ≠ requestId →
      world.journal.prepared.lookup other = some kept → digest ∉ kept.result.core.fragments.map (·.sha256) := by
    intro other kept different found named
    refine unprotected (List.mem_append_right _ (List.mem_flatMap.mpr ⟨⟨other, kept⟩, ?_, named⟩))
    exact List.mem_filter.mpr ⟨Table.mem_of_lookup found, by simpa using different⟩
  have complete : ∀ {kept : AuthenticatedResultV2}, digest ∉ kept.core.fragments.map (·.sha256) →
      verifyFragmentCas p world.disk kept = .ok () →
      verifyFragmentCas p (world.setFragments (world.disk.fragments.erase digest)).disk kept = .ok () := by
    intro kept unnamed before
    refine verifyFragmentCas_mono before fun other named payload found => ?_
    have different : other ≠ digest := by
      rintro rfl
      exact unnamed named
    exact (AList.lookup_erase_ne different).trans found
  refine ⟨filed, ⟨fun other kept found unretired => ?_, fun other staged found => ?_, fun commit found unretired => ?_⟩,
    guarded.protects, guarded.backed, guarded.commits⟩
  · exact complete (completed (live unretired) found) (guarded.retains.completed other kept found unretired)
  · obtain ⟨kept, lookup, cas⟩ := guarded.retains.staged other staged found
    exact ⟨kept, lookup, fun unretired => complete (prepared (live unretired) lookup) (cas unretired)⟩
  · obtain ⟨kept, lookup, same⟩ := guarded.protects commit found unretired
    exact complete (same ▸ prepared (live unretired) lookup) (guarded.retains.pending commit found unretired)

/-- The files of a retired request disappear behind its tombstone. -/
theorem unlinkSlot {world : World} (guarded : world.Guarded p) {requestId : String} {directory : Slot}
    {result : AuthenticatedResultV2} (retiring : world.Retiring requestId result) (retired : directory ∈ retiredSlots) :
    (world.setFiles directory ((world.disk.slots directory).erase (slotStem p requestId))).Guarded p := by
  obtain ⟨tombstone, tombstoned⟩ := Option.isSome_iff_exists.mp retiring.tombstoned
  obtain ⟨_, envelope, stored, _⟩ := guarded.filed.tombstones requestId tombstone tombstoned
  have others : ∀ other ∉ retiredSlots,
      (world.setFiles directory ((world.disk.slots directory).erase (slotStem p requestId))).disk.slots other =
        world.disk.slots other := by
    intro other kept
    refine Disk.setSlots_slots_of_ne _ _ ?_
    rintro rfl
    exact kept retired
  have filed : (world.setFiles directory ((world.disk.slots directory).erase (slotStem p requestId))).Filed p :=
    guarded.filed.frame rfl rfl rfl (fun other kept stem file found => by rw [others other kept, found])
  have backs : ∀ {stem : String} {kept : AuthenticatedResultV2}, world.disk.Backs stem kept →
      (world.setFiles directory ((world.disk.slots directory).erase (slotStem p requestId))).disk.Backs stem kept := by
    intro stem kept backed
    by_cases same : stem = slotStem p requestId
    · refine .inr ?_
      rw [Disk.Occupied, others .tombstones (by decide), same, stored]
      rfl
    · rcases backed with ⟨envelope, lookup, results⟩ | occupied
      · refine .inl ⟨envelope, ?_, results⟩
        by_cases prepared : Slot.prepared = directory
        · subst prepared
          rw [World.setFiles, Disk.setSlots_slots_self]
          exact (AList.lookup_erase_ne same).trans lookup
        · rw [World.setFiles, Disk.setSlots_slots_of_ne _ _ prepared, lookup]
      · refine .inr ?_
        rw [Disk.Occupied, others .tombstones (by decide)]
        exact occupied
  refine ⟨filed, ⟨guarded.retains.1, guarded.retains.2, guarded.retains.3⟩, guarded.protects,
    fun other prepared found => backs (guarded.backed other prepared found), fun stem envelope found => ?_⟩
  rw [others .commits (by decide)] at found
  refine (guarded.commits stem envelope found).imp (fun occupied => ?_) backs
  rw [Disk.Occupied, others .active (by decide)]
  exact occupied

/-- A retired request is forgotten; nothing live has its id. -/
theorem forget {world : World} (guarded : world.Guarded p) {requestId : String} {result : AuthenticatedResultV2}
    (retiring : world.Retiring requestId result) (filed : (world.setJournal (·.forget requestId)).Filed p) :
    (world.setJournal (·.forget requestId)).Guarded p := by
  refine ⟨filed, ⟨fun other kept found unretired => ?_, fun other staged found => ?_, guarded.retains.pending⟩,
    fun commit found unretired => ?_, fun other prepared found => ?_, guarded.commits⟩
  · exact guarded.retains.completed other kept (Table.lookup_erase_eq_some found).2 unretired
  · obtain ⟨different, lookup⟩ := Table.lookup_erase_eq_some found
    obtain ⟨kept, prepared, cas⟩ := guarded.retains.staged other staged lookup
    exact ⟨kept, (AList.lookup_erase_ne different).trans prepared, cas⟩
  · obtain ⟨kept, lookup, same⟩ := guarded.protects commit found unretired
    have different : commit.request.core.requestId ≠ requestId := by
      intro same
      have tombstoned := retiring.tombstoned
      rw [← same] at tombstoned
      change world.journal.tombstones.lookup _ = none at unretired
      rw [unretired] at tombstoned
      cases tombstoned
    exact ⟨kept, (AList.lookup_erase_ne different).trans lookup, same⟩
  · exact guarded.backed other prepared (Table.lookup_erase_eq_some found).2

end World.Guarded

theorem Micro.guarded {tearing : Prop} {world after : World} (guarded : world.Guarded p)
    (step : Micro p scope tearing world after) : after.Guarded p := by
  have filed := step.filed guarded.filed
  cases step with
  | tear allowed absent => exact guarded.tear absent
  | stray allowed admits absent => exact guarded.stray admits absent
  | record admits free => exact guarded.record admits free
  | activate pending receiptValid absent applied =>
    exact (guarded.placeSlot absent (by decide)).applied rfl pending applied filed
  | reactivate pending receiptValid agrees applied => exact guarded.applied rfl pending applied filed
  | strayActive allowed pending absent | jam pending absent refused => exact guarded.placeSlot absent (by decide)
  | display =>
    exact guarded.frame filed rfl (fun _ _ found => found) (fun _ _ _ found => found) (fun _ _ found => .inl found)
  | payload absent sound =>
    exact guarded.frame filed rfl (fun _ _ found => Table.lookup_insert_fresh absent found)
      (fun _ _ _ found => found) (fun _ _ found => .inl found)
  | unlinkFragment retiring named unprotected => exact guarded.unlinkFragment retiring unprotected
  | unlinkSlot retiring retired => exact guarded.unlinkSlot retiring retired
  | forget retiring unlinked => exact guarded.forget retiring filed

/-- A file that occupies the name of a commit belongs to the request of the commit, once it has been read. -/
theorem Opened.holds_of_occupied {key : MacKey} {journal : Journal} (opened : Opened p disk key journal)
    {requestId : String} {commit : CommitRecordV2} (committed : disk.Holds p .commits requestId commit)
    (covered : ∀ other record, disk.Holds p directory other record → ∃ commit, disk.Holds p .commits other commit)
    (occupied : disk.Occupied directory (slotStem p requestId)) : ∃ record, disk.Holds p directory requestId record := by
  obtain ⟨file, found⟩ := Option.isSome_iff_exists.mp occupied
  obtain ⟨envelope, rfl, named⟩ := opened.files directory _ file found
  have held : disk.Holds p directory (directory.requestId envelope.payload) envelope.payload :=
    ⟨envelope, by rw [named, found], rfl, rfl⟩
  obtain ⟨other, stored, lookup, payload, identified⟩ := covered _ _ held
  obtain ⟨own, ownLookup, ownPayload, ownIdentified⟩ := committed
  -- Both commits are read from the same file, so they have the same request.
  rw [named, ownLookup] at lookup
  cases lookup
  have same : commit = other := ownPayload.symm.trans payload
  have ids : directory.requestId envelope.payload = requestId := by
    rw [← identified, ← ownIdentified, same]
  exact ⟨envelope.payload, ids ▸ held⟩

/-- A reopened journal protects what it found: the restore pass has checked the payloads of every live
result, and a pending commit has its prepared record. -/
theorem Opened.guarded {journal : Journal} (opened : Opened p world.disk world.journal.key journal)
    (guarded : world.Guarded p) : World.Guarded p { world with journal } where
  filed := opened.filed
  retains := by
    refine ⟨fun requestId result found live => ?_, fun requestId record found => ?_, fun commit found live => ?_⟩
    · obtain ⟨commit, _, ⟨envelope, stored, payload, rfl⟩, rfl, _⟩ := (opened.completions requestId result).mp found
      exact (opened.commitChecked _ commit ⟨envelope, stored, payload, rfl⟩).retained live
    · obtain ⟨held, live, unfinished⟩ := (opened.staged requestId record).mp found
      obtain ⟨prepared, preparedHeld, complete⟩ := opened.stagedValid requestId record held live
      exact ⟨prepared, (opened.prepared requestId prepared).mpr ⟨preparedHeld, live, unfinished⟩, fun _ => complete⟩
    · obtain ⟨requestId, held, _⟩ := (opened.pending commit).mp found
      exact (opened.commitChecked requestId commit held).retained live
  protects commit found live := by
    obtain ⟨notCompleted, held⟩ := opened.filed.pending commit found
    obtain ⟨requestId, ⟨own, ownStored, ownPayload, rfl⟩, inactive⟩ := (opened.pending commit).mp found
    rcases guarded.commits _ own ownStored with occupied | ⟨envelope, stored, same⟩ | occupied
    · obtain ⟨record, active⟩ := opened.holds_of_occupied held opened.activeCommit occupied
      exact absurd active (inactive record)
    · have answers := AuthenticatedResultV2.verifyAgainst_answers (opened.commitChecked _ commit held).answered
      have results : envelope.payload.result = commit.result := by rw [same, ownPayload]
      refine ⟨envelope.payload, (opened.prepared _ _).mpr ⟨⟨envelope, stored, rfl, ?_⟩, live, notCompleted⟩, results⟩
      change envelope.payload.result.core.requestId = commit.request.core.requestId
      rw [results, answers.requestId]
    · have covered : ∀ other record, world.disk.Holds p .tombstones other record →
          ∃ commit, world.disk.Holds p .commits other commit := by
        intro other record tombstoned
        obtain ⟨result, completed, _⟩ := opened.tombstoneValid other record ((opened.tombstones ..).mpr tombstoned)
        obtain ⟨commit, _, committed, _⟩ := (opened.completions other result).mp completed
        exact ⟨commit, committed⟩
      obtain ⟨record, tombstoned⟩ := opened.holds_of_occupied held covered occupied
      have retired := (opened.tombstones _ record).mpr tombstoned
      change journal.tombstones.lookup _ = none at live
      rw [live] at retired
      cases retired
  backed requestId prepared found := by
    obtain ⟨⟨envelope, stored, payload, _⟩, _⟩ := (opened.prepared requestId prepared).mp found
    exact .inl ⟨envelope, stored, by rw [payload]⟩
  commits := guarded.commits

theorem World.Guarded.step {world after : World} (guarded : world.Guarded p) {event : Event p}
    (stepped : event.step world = some after) : after.Guarded p := by
  cases event with
  | call operation faults =>
    cases stepped
    exact Path.invariant (fun _ _ held step => step.guarded held) guarded (operation.exec_path_own faults world)
  | reopen expectedKeyId minimumEpoch =>
    obtain ⟨journal, opened, rfl⟩ := Event.step_reopen stepped
    exact (openJournal_ok opened).guarded guarded

theorem guarded_create (session : AuthenticatedSessionV2) (key : MacKey) :
    World.Guarded p ⟨Journal.fromSession p key session, Disk.fresh session, [], [], []⟩ where
  filed := filed_create session key
  retains := ⟨by simp [Journal.fromSession], by simp [Journal.fromSession], by simp [Journal.fromSession]⟩
  protects := by simp [Journal.fromSession]
  backed := by simp [Journal.fromSession]
  commits := by simp [Disk.fresh]

/-- A live result, completed, staged or pending and not retired, names this payload. -/
def World.Names (world : World) (digest : String) : Prop :=
  (∃ requestId result, world.journal.completions.lookup requestId = some result ∧
    world.journal.tombstones.lookup requestId = none ∧ digest ∈ result.core.fragments.map (·.sha256)) ∨
  (∃ requestId staged prepared, world.journal.staged.lookup requestId = some staged ∧
    world.journal.prepared.lookup requestId = some prepared ∧ world.journal.tombstones.lookup requestId = none ∧
    digest ∈ prepared.result.core.fragments.map (·.sha256)) ∨
  ∃ commit, world.journal.pendingActivation = some commit ∧
    world.journal.tombstones.lookup commit.request.core.requestId = none ∧
    digest ∈ commit.result.core.fragments.map (·.sha256)

/-- A named payload is stored. -/
theorem World.Retains.stored (retains : world.Retains p) {digest : String}
    (named : world.Names digest) : world.disk.fragments.lookup digest ≠ none := by
  have present : ∀ {result : AuthenticatedResultV2}, verifyFragmentCas p world.disk result = .ok () →
      digest ∈ result.core.fragments.map (·.sha256) → world.disk.fragments.lookup digest ≠ none := by
    intro result complete member
    obtain ⟨descriptor, listed, rfl⟩ := List.mem_map.mp member
    obtain ⟨payload, found, _⟩ := verifyFragmentCas_ok_iff.mp complete descriptor listed
    rw [found]
    exact Option.some_ne_none payload
  rcases named with ⟨requestId, result, completed, live, member⟩ |
    ⟨requestId, staged, prepared, stage, lookup, live, member⟩ | ⟨commit, pending, live, member⟩
  · exact present (retains.completed requestId result completed live) member
  · obtain ⟨existing, found, complete⟩ := retains.staged requestId staged stage
    rw [lookup] at found
    cases found
    exact present (complete live) member
  · exact present (retains.pending commit pending live) member

/-- In every state of every history the payloads of all live results are in place, and a retirement
unlinks only payloads that no live result names. -/
theorem fragments_retained {session : AuthenticatedSessionV2} {key : MacKey} {createdUnixMs : UInt64}
    {expectedKeyId : String} {minimumEpoch : UInt64} {start world : World} {events : List (Event p)}
    (created : create p session key createdUnixMs expectedKeyId minimumEpoch = .ok start)
    (ran : run events start = some world) :
    world.Retains p ∧ ∀ faults requestId nowUnixMs retryRetentionMs digest,
      world.disk.fragments.lookup digest ≠ none →
      (garbageCollect p faults requestId nowUnixMs retryRetentionMs world).2.disk.fragments.lookup digest = none →
      ¬(garbageCollect p faults requestId nowUnixMs retryRetentionMs world).2.Names digest := by
  obtain ⟨_, rfl⟩ := create_ok created
  have guarded : world.Guarded p :=
    run_invariant (fun _ _ _ _ held stepped => held.step stepped) (guarded_create session key) ran
  refine ⟨guarded.retains, fun faults requestId nowUnixMs retention digest _ removed named => ?_⟩
  have stepped : (Event.call (.garbageCollect requestId nowUnixMs retention) faults).step (p := p) world =
    some (garbageCollect p faults requestId nowUnixMs retention world).2 := rfl
  exact (guarded.step stepped).retains.stored named removed

theorem fragments_retained_first_round : ∃ world, run Sample.firstRound Sample.start = some world ∧
    world.Retains Sample.primitives := by
  obtain ⟨world, ran⟩ := Option.isSome_iff_exists.mp
    (show (run Sample.firstRound Sample.start).isSome = true by rfl)
  exact ⟨world, ran, (fragments_retained Sample.created ran).1⟩

end Muser.Verifier
