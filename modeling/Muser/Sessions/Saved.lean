import Muser.Sessions.Progress
import Muser.Sessions.Replays

/-! # What is marked as saved

A session is marked as saved when its bundle has been written, but the mark is made in a step of its
own, and other steps may come between the copy, the write and the mark. The mark is true of every state
of a run exactly when each step of the run keeps to what `sound` asks of the store that it finds.
-/

namespace Muser.Sessions

structure SessionView where
  id : String
  revision : ℕ
  contextEpoch : ℕ
  tokens : ℕ
  busy : Bool
  saved : Bool
deriving DecidableEq

def view (id : String) (record : Record) : SessionView :=
  { id := id
    revision := record.revision
    contextEpoch := record.contextEpoch
    tokens := record.bundle.elim 0 fun bundle => bundle.target.position
    busy := record.busy
    saved := record.saved }

namespace Store

variable {outside : Outside} {store after : Store} {id : String} {bundle : SessionBundle}

def get (store : Store) (id : String) : Except String (Option SessionView) := do
  validateId id
  .ok ((store.registry.lookup id).map (view id))

/-- The file of a session decrypts to a bundle. -/
def OnDisk (store : Store) (id : String) (bundle : SessionBundle) : Prop :=
  ∃ content key, store.files.bundles.lookup id = some content ∧ store.files.key = some key ∧ content.decrypt key = .ok bundle

/-- Whatever is marked as saved is on disk. -/
def Truthful (store : Store) : Prop :=
  ∀ id record, store.registry.lookup id = some record → record.saved = true →
    ∃ bundle, record.bundle = some bundle ∧ store.OnDisk id bundle

/-- A server that starts anew over the files of an earlier one. -/
def restarted (store : Store) : Store := ⟨∅, store.files, []⟩

/-- A restore after a restart brings back the revision of a view. -/
def Restores (outside : Outside) (store : Store) (seen : SessionView) : Prop :=
  ∃ bundle opened, store.restarted.step outside (.call (.restore seen.id)) =
      some (some (.goes (.installRestored seen.id bundle)), opened) ∧
    ∀ chance, ∃ restored again, opened.step outside (.resume 0 chance) = some (some (.ends (.ok .nothing)), restored) ∧
      restored.get seen.id = .ok (some again) ∧ again.revision = seen.revision

/-- A mark means that the file holds the bundle and the revision of the record, and that a session which
is seen as saved comes back after a restart. -/
structure Kept (outside : Outside) (store : Store) : Prop where
  disk : ∀ id record, store.registry.lookup id = some record → record.saved = true →
    ∃ bundle, record.bundle = some bundle ∧ bundle.revision = record.revision ∧ store.OnDisk id bundle
  restart : ∀ id seen, store.get id = .ok (some seen) → seen.saved = true → store.Restores outside seen

/-- What the next step of a call must find: a save or a failing import that replaces a file finds no
other bundle marked as saved, a mark finds the record's bundle in the file, a restore finds the file that
it has read, and a removal that fails behind the unlinking finds no mark. -/
def finds (store : Store) (chance : Chance) : Pending → Prop
  | .writeBundle id bundle =>
    chance.write ≠ .unwritten → ∀ record, store.registry.lookup id = some record → record.saved = true →
      record.bundle = some bundle
  | .noteSaved id =>
    ∀ record, store.registry.lookup id = some record → ∃ bundle, record.bundle = some bundle ∧ store.OnDisk id bundle
  | .installRestored id bundle => (store.registry.restore id bundle).isOk → store.OnDisk id bundle
  | .removeSource _ id _ =>
    chance.write = .unsynced → ∀ record, store.registry.lookup id = some record → record.busy = false → record.saved = false
  | .installImported _ bundle =>
    chance.write = .unsynced → (store.registry.admitsImport bundle).isOk →
      ∀ record, store.registry.lookup bundle.sessionId = some record → record.saved = true → record.bundle = some bundle
  | _ => True

def sound (store : Store) : Action → Prop
  | .resume index chance => ∀ pending, store.pending[index]? = some pending → store.finds chance pending
  | _ => True

/-- Something holds of every state of a run. -/
def Always (outside : Outside) (holds : Store → Prop) (store : Store) : List Action → Prop
  | [] => holds store
  | action :: actions => holds store ∧
    ∀ outcome after, store.step outside action = some (outcome, after) → after.Always outside holds actions

/-- Every step of a run finds what it must. -/
def Meets (outside : Outside) (asks : Store → Action → Prop) (store : Store) : List Action → Prop
  | [] => True
  | action :: actions => asks store action ∧
    ∀ outcome after, store.step outside action = some (outcome, after) → after.Meets outside asks actions

section Sane

/-- A bundle that a call is about to install has been validated. -/
def Taken (outside : Outside) : Pending → Prop
  | .installRestored id bundle => validateBundle outside.replayPlan bundle id = .ok ()
  | .installImported _ bundle => validateBundle outside.replayPlan bundle bundle.sessionId = .ok ()
  | _ => True

/-- What holds of every store, marks aside: bundles are valid, and of the revision of their record. -/
structure Sane (outside : Outside) (store : Store) : Prop where
  records : ∀ id record bundle, store.registry.lookup id = some record → record.bundle = some bundle →
    validateBundle outside.replayPlan bundle id = .ok () ∧ bundle.revision = record.revision
  calls : ∀ pending ∈ store.pending, Taken outside pending

theorem sane_new (outside : Outside) : Sane outside Store.new := by
  constructor
  · intro id record bundle found
    cases found
  · intro pending mem
    cases mem

theorem validateBundle_sessionId (valid : validateBundle outside.replayPlan bundle id = .ok ()) : bundle.sessionId = id := by
  have first := (check_eq_ok_iff.mp valid).1
  rw [reject_eq_ok_iff, Bool.or_eq_false_iff] at first
  exact bne_eq_false_iff_eq.mp first.2

theorem resume_taken {chance : Chance} {pending next : Pending}
    (is : store.resume outside chance pending = (.goes next, after)) :
    Taken outside next := by
  cases pending with
  | openPayload record expected =>
    have goes := next_goes.mp (Prod.mk.inj is).1
    split at goes
    · cases goes
    · obtain ⟨bundle, -, goes⟩ := bind_eq_ok_iff.mp goes
      obtain ⟨valid, goes⟩ := check_eq_ok_iff.mp goes
      obtain ⟨-, goes⟩ := check_eq_ok_iff.mp goes
      cases goes
      have same := validateBundle_sessionId valid
      rw [← same] at valid
      exact valid
  | _ => cases resume_goes is <;> exact trivial

variable {action : Action} {outcome : Option Outcome}

/-- The records of a registry after a step. -/
theorem records_step (sane : Sane outside store) {registry : Registry} (change : Change outside store action registry) :
    ∀ id record bundle, registry.lookup id = some record → record.bundle = some bundle →
      validateBundle outside.replayPlan bundle id = .ok () ∧ bundle.revision = record.revision := by
  have inserted : ∀ {id : String} {record : Record}, (∀ bundle, record.bundle = some bundle →
      validateBundle outside.replayPlan bundle id = .ok () ∧ bundle.revision = record.revision) →
      ∀ other found bundle, (store.registry.insert id record).lookup other = some found → found.bundle = some bundle →
        validateBundle outside.replayPlan bundle other = .ok () ∧ bundle.revision = found.revision := by
    intro id record fine other found bundle looked has
    rcases Table.lookup_insert_cases looked with ⟨rfl, rfl⟩ | ⟨-, looked⟩
    · exact fine bundle has
    · exact sane.records other found bundle looked has
  cases change with
  | kept => exact sane.records
  | created is =>
    obtain ⟨-, rfl⟩ := Registry.create_ok is
    exact inserted fun bundle has => by cases has
  | deleted is =>
    obtain ⟨-, rfl⟩ := Registry.delete_ok is
    intro id record bundle found has
    exact sane.records id record bundle (Table.lookup_erase_eq_some found).2 has
  | begun is =>
    obtain ⟨record, found, ⟨_, _, _, _, _, rfl⟩ | ⟨_, _, _, _, rfl⟩⟩ := Registry.begin_ok is
    · exact sane.records
    · exact inserted fun bundle has => sane.records _ record bundle found has
  | @aborted id =>
    intro other record bundle found has
    obtain ⟨earlier, known, same, revision⟩ :=
      Registry.bundle_of_changed (Registry.lookup_abort ..) (fun _ => ⟨rfl, rfl⟩) found
    exact revision ▸ sane.records other earlier bundle known (same.trans has)
  | committed valid is =>
    obtain ⟨record, found, -, -, rfl, rfl⟩ := Registry.commit_ok is
    refine inserted fun bundle has => ?_
    cases has
    exact ⟨valid, rfl⟩
  | @saved _ _ id _ =>
    intro other record bundle found has
    obtain ⟨earlier, known, same, revision⟩ :=
      Registry.bundle_of_changed (Registry.lookup_markSaved ..) (fun _ => ⟨rfl, rfl⟩) found
    exact revision ▸ sane.records other earlier bundle known (same.trans has)
  | restored at_ is =>
    obtain rfl := Registry.restore_ok is
    refine inserted fun bundle has => ?_
    cases has
    exact ⟨sane.calls _ (List.mem_of_getElem? at_), rfl⟩
  | removed at_ =>
    intro id record bundle found has
    exact sane.records id record bundle (Table.lookup_erase_eq_some found).2 has
  | imported at_ =>
    refine inserted fun bundle has => ?_
    cases has
    exact ⟨sane.calls _ (List.mem_of_getElem? at_), rfl⟩
  | crashed =>
    intro id record bundle found
    cases found

/-- The calls under way after a step. -/
theorem calls_step (sane : Sane outside store)
    (is : store.step outside action = some (outcome, after)) : ∀ pending ∈ after.pending, Taken outside pending := by
  have kept : ∀ {began : Outcome} {middle : Store}, (∀ pending ∈ middle.pending, Taken outside pending) →
      (∀ next, began = .goes next → Taken outside next) → ∀ pending ∈ (keep began middle).pending,
        Taken outside pending := by
    intro began middle others new pending mem
    cases began with
    | ends answer => exact others pending mem
    | goes next =>
      rcases List.mem_append.mp mem with mem | mem
      · exact others pending mem
      · rw [List.mem_singleton.mp mem]
        exact new next rfl
  cases action with
  | call call =>
    have calls : (store.start outside call).2.pending = store.pending := start_pending call
    generalize ran : store.start outside call = both at calls
    obtain ⟨began, middle⟩ := both
    simp only [step, ran, Option.some.injEq, Prod.mk.injEq] at is
    obtain ⟨-, rfl⟩ := is
    refine kept (by rw [calls]; exact sane.calls) ?_
    rintro next rfl
    cases start_goes ran with
    | restore valid => exact valid
    | _ => trivial
  | resume index chance =>
    obtain ⟨pending, at_, is⟩ := Option.map_eq_some_iff.mp is
    let others : Store := { store with pending := store.pending.eraseIdx index }
    have resumed : Resumed others chance pending (others.resume outside chance pending) := resume_resumed chance pending
    generalize ran : others.resume outside chance pending = both at is resumed
    obtain ⟨went, middle⟩ := both
    cases is
    refine kept (fun pending mem => ?_) fun next goes => resume_taken (goes ▸ ran)
    rw [resumed.others] at mem
    exact sane.calls pending (List.mem_of_mem_eraseIdx mem)
  | interrupt index failure =>
    obtain ⟨pending, at_, is⟩ := Option.map_eq_some_iff.mp is
    generalize ran : interrupt failure pending = went at is
    cases is
    refine kept (fun pending mem => sane.calls pending (List.mem_of_mem_eraseIdx mem)) ?_
    rintro next rfl
    obtain ⟨-, _, _, _, rfl⟩ : pending.Leads outside store next ∧ _ := interrupt_goes ran
    trivial
  | upload path content =>
    cases is
    exact sane.calls
  | crash =>
    cases is
    intro pending mem
    cases mem

theorem sane_step (sane : Sane outside store)
    (is : store.step outside action = some (outcome, after)) : Sane outside after :=
  ⟨records_step sane (step_change is), calls_step sane is⟩

end Sane

section Marks

/-- Each marked record of a registry was there before, marked and with its bundle. -/
def Older (before registry : Registry) : Prop :=
  ∀ id record, registry.lookup id = some record → record.saved = true →
    ∃ earlier, before.lookup id = some earlier ∧ earlier.saved = true ∧ earlier.bundle = record.bundle

theorem Older.refl (registry : Registry) : Older registry registry := fun _ record found saved => ⟨record, found, saved, rfl⟩

theorem Older.insert {registry : Registry} {record : Record} (same : record.saved = true →
    ∃ earlier, registry.lookup id = some earlier ∧ earlier.saved = true ∧ earlier.bundle = record.bundle) :
    Older registry (registry.insert id record) := by
  intro other found looked saved
  rcases Table.lookup_insert_cases looked with ⟨rfl, rfl⟩ | ⟨-, looked⟩
  · exact same saved
  · exact ⟨found, looked, saved, rfl⟩

theorem Older.erase (registry : Registry) (id : String) : Older registry (registry.erase id) :=
  fun _ record found saved => ⟨record, (Table.lookup_erase_eq_some found).2, saved, rfl⟩

/-- No operation of a client marks anything as saved. -/
theorem older_of_call {call : Call} {registry : Registry} (change : Change outside store (.call call) registry) :
    Older store.registry registry := by
  cases change with
  | kept => exact .refl _
  | created is =>
    obtain ⟨-, rfl⟩ := Registry.create_ok is
    exact .insert fun saved => by cases saved
  | deleted is =>
    obtain ⟨-, rfl⟩ := Registry.delete_ok is
    exact .erase _ _
  | begun is =>
    obtain ⟨record, found, ⟨_, _, _, _, _, rfl⟩ | ⟨_, _, _, _, rfl⟩⟩ := Registry.begin_ok is
    · exact .refl _
    · exact .insert fun saved => ⟨record, found, saved, rfl⟩
  | @aborted id =>
    intro other record found saved
    rw [Registry.lookup_abort] at found
    split at found
    · next same =>
      obtain ⟨earlier, known, rfl⟩ := Option.map_eq_some_iff.mp found
      exact ⟨earlier, same ▸ known, saved, rfl⟩
    · exact ⟨record, found, saved, rfl⟩
  | committed _ is =>
    obtain ⟨record, found, -, -, rfl, rfl⟩ := Registry.commit_ok is
    exact .insert fun saved => by cases saved

theorem OnDisk.unique {other : SessionBundle} (first : store.OnDisk id bundle)
    (second : store.OnDisk id other) : bundle = other := by
  obtain ⟨content, key, found, has, opens⟩ := first
  obtain ⟨content', key', found', has', opens'⟩ := second
  cases found.symm.trans found'
  cases has.symm.trans has'
  exact Except.ok.inj (opens.symm.trans opens')

theorem OnDisk.of_files (disk : store.OnDisk id bundle) (bundles : after.files.bundles = store.files.bundles)
    (key : after.files.key = store.files.key) : after.OnDisk id bundle := by
  rw [OnDisk, bundles, key]
  exact disk

theorem Truthful.of_older (truthful : store.Truthful) (older : Older store.registry after.registry)
    (bundles : after.files.bundles = store.files.bundles) (key : after.files.key = store.files.key) : after.Truthful := by
  intro id record found saved
  obtain ⟨earlier, known, marked, same⟩ := older id record found saved
  obtain ⟨bundle, has, disk⟩ := truthful id earlier known marked
  exact ⟨bundle, same ▸ has, disk.of_files bundles key⟩

variable {chance : Chance}

/-- The files after a bundle is sealed for a session. -/
theorem onDisk_sealBundle (wrote : chance.write ≠ .unwritten) : (store.sealBundle chance id bundle).OnDisk id bundle := by
  refine ⟨.envelope (store.files.key.getD chance.key) chance.nonce bundle, store.files.key.getD chance.key, ?_, rfl, ?_⟩
  · show (chance.write.put store.files.bundles id _).lookup id = _
    cases write : chance.write with
    | unwritten => exact absurd write wrote
    | unsynced | done => exact AList.lookup_insert _
  · rw [Content.decrypt, if_pos rfl]

theorem OnDisk.sealBundle {other : String} {kept : SessionBundle} (disk : store.OnDisk other kept)
    (elsewhere : other ≠ id ∨ chance.write = .unwritten) : (store.sealBundle chance id bundle).OnDisk other kept := by
  obtain ⟨content, key, found, has, opens⟩ := disk
  refine ⟨content, key, ?_, ?_, opens⟩
  · show (chance.write.put store.files.bundles id _).lookup other = _
    cases write : chance.write with
    | unwritten => exact found
    | unsynced | done =>
      have other : other ≠ id := elsewhere.resolve_right (by rw [write]; decide)
      exact (AList.lookup_insert_ne other).trans found
  · show some (store.files.key.getD chance.key) = _
    rw [has, Option.getD_some]

/-- A write of a session's file leaves its mark true exactly if it writes the marked bundle. -/
theorem truthful_sealBundle {chance : Chance} (truthful : store.Truthful) : (store.sealBundle chance id bundle).Truthful ↔
    (chance.write ≠ .unwritten → ∀ record, store.registry.lookup id = some record → record.saved = true →
      record.bundle = some bundle) := by
  constructor
  · intro later wrote record found saved
    obtain ⟨kept, has, disk⟩ := later id record found saved
    rw [has, disk.unique (onDisk_sealBundle wrote)]
  · intro same other record found saved
    obtain ⟨kept, has, disk⟩ := truthful other record found saved
    by_cases here : other ≠ id ∨ chance.write = .unwritten
    · exact ⟨kept, has, disk.sealBundle here⟩
    · rw [not_or, not_not] at here
      obtain ⟨rfl, wrote⟩ := here
      exact ⟨bundle, same wrote record found saved, onDisk_sealBundle wrote⟩

theorem truthful_markSaved (truthful : store.Truthful) :
    ({ store with registry := store.registry.markSaved id } : Store).Truthful ↔
    ∀ record, store.registry.lookup id = some record → ∃ bundle, record.bundle = some bundle ∧ store.OnDisk id bundle := by
  constructor
  · intro later record found
    refine later id { record with saved := true } ?_ rfl
    show (store.registry.markSaved id).lookup id = _
    rw [Registry.lookup_markSaved, if_pos rfl, found, Option.map_some]
  · intro here other record found saved
    change (store.registry.markSaved id).lookup other = _ at found
    rw [Registry.lookup_markSaved] at found
    split at found
    · next same =>
      obtain ⟨earlier, known, rfl⟩ := Option.map_eq_some_iff.mp found
      subst same
      exact here earlier known
    · exact truthful other record found saved

/-- A bundle that is installed and marked is on disk, or the mark is false. -/
theorem truthful_install (truthful : store.Truthful) :
    ({ store with registry := store.registry.insert id (.ofBundle bundle) } : Store).Truthful ↔ store.OnDisk id bundle := by
  constructor
  · intro later
    obtain ⟨kept, has, disk⟩ := later id (.ofBundle bundle) (AList.lookup_insert _) rfl
    cases has
    exact disk
  · intro disk other record found saved
    rcases Table.lookup_insert_cases found with ⟨rfl, rfl⟩ | ⟨-, found⟩
    · exact ⟨bundle, rfl, disk⟩
    · exact truthful other record found saved

/-- A removal leaves the marks true unless it fails when the file of a marked session is gone. -/
theorem truthful_removeSource (truthful : store.Truthful) : (store.removeSource chance id).2.Truthful ↔
    (chance.write = .unsynced → ∀ record, store.registry.lookup id = some record → record.busy = false →
      record.saved = false) := by
  have gone : ({ store with
      registry := store.registry.erase id, files := { store.files with bundles := store.files.bundles.erase id } } :
      Store).Truthful := by
    intro other record found saved
    obtain ⟨different, found⟩ := Table.lookup_erase_eq_some found
    obtain ⟨bundle, has, content, key, file, rest⟩ := truthful other record found saved
    refine ⟨bundle, has, content, key, ?_, rest⟩
    exact (AList.lookup_erase_ne different).trans file
  rw [removeSource]
  cases known : store.registry.lookup id with
  | none => exact iff_of_true truthful fun _ record found => by cases found
  | some record =>
    dsimp only
    cases busy : record.busy with
    | true =>
      refine iff_of_true truthful fun _ other found idle => ?_
      cases found
      exact absurd (busy.symm.trans idle) (by decide)
    | false =>
      rw [if_neg (by decide)]
      cases file : store.files.bundles.lookup id with
      | none =>
        refine iff_of_true gone fun _ other found idle => Bool.eq_false_iff.mpr fun saved => ?_
        cases found
        obtain ⟨bundle, has, content, key, there, rest⟩ := truthful id record known saved
        rw [file] at there
        cases there
      | some content =>
        rw [Option.isNone_some, if_neg Bool.false_ne_true]
        cases chance.write with
        | unwritten => exact iff_of_true truthful fun wrote => by cases wrote
        | done => exact iff_of_true gone fun wrote => by cases wrote
        | unsynced =>
          constructor
          · rintro later - other found idle
            cases found
            refine Bool.eq_false_iff.mpr fun saved => ?_
            obtain ⟨bundle, has, content', key, there, rest⟩ := later id record known saved
            have empty : (store.files.bundles.erase id).lookup id = none := AList.lookup_erase _ _
            cases empty.symm.trans there
          · intro unmarked other record' found saved
            by_cases here : other = id
            · subst here
              cases known.symm.trans found
              exact absurd saved (Bool.eq_false_iff.mp (unmarked rfl record rfl busy))
            · obtain ⟨bundle, has, content', key, there, rest⟩ := truthful other record' found saved
              refine ⟨bundle, has, content', key, ?_, rest⟩
              exact (AList.lookup_erase_ne here).trans there

theorem truthful_import (truthful : store.Truthful) (wrote : chance.write ≠ .unwritten) :
    ({ store.sealBundle chance bundle.sessionId bundle with
        registry := store.registry.insert bundle.sessionId (.ofBundle bundle) } : Store).Truthful := by
  intro other record found saved
  rcases Table.lookup_insert_cases found with ⟨rfl, rfl⟩ | ⟨different, found⟩
  · exact ⟨bundle, rfl, onDisk_sealBundle wrote⟩
  · obtain ⟨kept, has, disk⟩ := truthful other record found saved
    exact ⟨kept, has, disk.sealBundle (.inl different)⟩

/-- A call that is at work on sessions and their files. -/
def atSessions : Pending → Bool
  | .writeBundle .. | .noteSaved .. | .installRestored .. | .removeSource .. | .installImported .. => true
  | _ => false

/-- The other calls leave the sessions and their files alone. -/
theorem resume_elsewhere (chance : Chance) {pending : Pending} (elsewhere : atSessions pending = false) :
    (store.resume outside chance pending).2.registry = store.registry ∧
      (store.resume outside chance pending).2.files.bundles = store.files.bundles ∧
      (store.resume outside chance pending).2.files.key = store.files.key := by
  cases pending with
  | writeBundle => cases elsewhere
  | noteSaved => cases elsewhere
  | installRestored => cases elsewhere
  | removeSource => cases elsewhere
  | installImported => cases elsewhere
  | checkSource id transferId | checkSession record | checkPayload record =>
    rw [Store.resume]
    split
    · exact ⟨rfl, rfl, rfl⟩
    · split <;> exact ⟨rfl, rfl, rfl⟩
  | movePayload record path =>
    rw [Store.resume]
    split
    · exact ⟨rfl, rfl, rfl⟩
    · split
      · dsimp only
        split <;> exact ⟨rfl, rfl, rfl⟩
      · exact ⟨rfl, rfl, rfl⟩
  | _ => exact ⟨rfl, rfl, rfl⟩

/-- The next step of a call leaves the marks true exactly if it finds what it must. -/
theorem truthful_resume {chance : Chance} (truthful : store.Truthful) (pending : Pending) :
    (store.resume outside chance pending).2.Truthful ↔ store.finds chance pending := by
  have quiet : atSessions pending = false → (store.resume outside chance pending).2.Truthful := by
    intro elsewhere
    obtain ⟨registry, bundles, key⟩ := @resume_elsewhere outside store chance _ elsewhere
    exact truthful.of_older (registry ▸ .refl _) bundles key
  cases pending with
  | writeBundle id bundle => exact truthful_sealBundle truthful
  | noteSaved id => exact truthful_markSaved truthful
  | installRestored id bundle =>
    show (store.settle _).2.Truthful ↔ _
    rw [finds]
    cases restored : store.registry.restore id bundle with
    | error failure => exact iff_of_true truthful fun ok => by cases ok
    | ok registry =>
      obtain rfl := Registry.restore_ok restored
      exact (truthful_install truthful).trans ⟨fun disk _ => disk, fun disk => disk rfl⟩
  | removeSource reconciles id transferId => exact truthful_removeSource truthful
  | installImported record bundle =>
    rw [Store.resume, finds]
    cases admits : store.registry.admitsImport bundle with
    | error failure => exact iff_of_true truthful fun _ ok => by cases ok
    | ok admitted =>
      have sealed := @truthful_sealBundle store bundle.sessionId bundle chance truthful
      cases write : chance.write with
      | done => exact iff_of_true (truthful_import truthful (by rw [write]; decide)) fun wrote => by cases wrote
      | unwritten => exact iff_of_true (sealed.mpr fun wrote => absurd write wrote) fun wrote => by cases wrote
      | unsynced => exact sealed.trans ⟨fun same _ _ => same (by rw [write]; decide), fun same _ => same rfl rfl⟩
  | checkSource | readUpdate | writeUpdate | readCut | writePayload | hashPayload | writeExport
  | checkSession | writeRegistered | checkPayload | writePrepared | movePayload | writeAccepted
  | openPayload | writeCommitted => exact iff_of_true (quiet rfl) trivial

theorem truthful_keep (outcome : Outcome) : (keep outcome store).Truthful ↔ store.Truthful := by
  cases outcome <;> exact Iff.rfl

theorem finds_pending {others : List Pending} {chance : Chance} (pending : Pending) :
    ({ store with pending := others } : Store).finds chance pending ↔ store.finds chance pending := by
  cases pending <;> exact Iff.rfl

/-- A step leaves the marks true exactly if it finds what it must. -/
theorem truthful_step (truthful : store.Truthful) {action : Action} {outcome : Option Outcome}
    (is : store.step outside action = some (outcome, after)) : after.Truthful ↔ store.sound action := by
  cases action with
  | call call =>
    have files := @start_files outside store call
    have change := @start_change outside store call
    cases is
    rw [truthful_keep]
    refine iff_of_true (truthful.of_older (older_of_call change) ?_ ?_) trivial
    · exact congrArg Files.bundles files
    · exact congrArg Files.key files
  | resume index chance =>
    obtain ⟨pending, at_, is⟩ := Option.map_eq_some_iff.mp is
    let others : Store := { store with pending := store.pending.eraseIdx index }
    have resumed := @truthful_resume outside others chance truthful pending
    cases is
    rw [truthful_keep]
    refine (resumed.trans (finds_pending pending)).trans ⟨fun found pending' at' => ?_, fun sound => sound pending at_⟩
    cases at_.symm.trans at'
    exact found
  | interrupt index failure =>
    obtain ⟨pending, at_, is⟩ := Option.map_eq_some_iff.mp is
    cases is
    rw [truthful_keep]
    exact iff_of_true truthful trivial
  | upload path content =>
    cases is
    exact iff_of_true truthful trivial
  | crash =>
    cases is
    refine iff_of_true ?_ trivial
    intro id record found
    cases found

end Marks

section Runs

/-- Where nothing happens, nothing is asked. -/
theorem sound_of_no_step {action : Action} (none : store.step outside action = none) : store.sound action := by
  cases action with
  | resume index chance =>
    intro pending at_
    rw [step, at_] at none
    cases none
  | _ => trivial

theorem restores_of_onDisk (sane : Sane outside store) {record : Record} (valid : validateId id = .ok ())
    (found : store.registry.lookup id = some record) (has : record.bundle = some bundle) (disk : store.OnDisk id bundle) :
    store.Restores outside (view id record) := by
  obtain ⟨whole, revision⟩ := sane.records id record bundle found has
  obtain ⟨content, key, file, keyed, opens⟩ := disk
  have begun : store.restarted.start outside (.restore id) = (.goes (.installRestored id bundle), store.restarted) := by
    have file : store.restarted.files.bundles.lookup id = some content := file
    have keyed : store.restarted.files.key = some key := keyed
    rw [start, valid, file, keyed]
    show (next (content.decrypt key >>= _), _) = _
    rw [opens]
    show (next (validateBundle outside.replayPlan bundle id >>= _), _) = _
    rw [whole]
    rfl
  refine ⟨bundle, { store.restarted with pending := [.installRestored id bundle] }, ?_, fun chance => ?_⟩
  · show some (some (store.restarted.start outside (.restore id)).1,
      keep (store.restarted.start outside (.restore id)).1 (store.restarted.start outside (.restore id)).2) = _
    rw [begun]
    rfl
  · refine ⟨{ store.restarted with registry := AList.insert id (.ofBundle bundle) ∅ }, view id (.ofBundle bundle),
      rfl, ?_, revision⟩
    refine check_eq_ok_iff.mpr ⟨valid, ?_⟩
    have there : (AList.insert id (Record.ofBundle bundle) (∅ : Registry)).lookup id = some (.ofBundle bundle) :=
      AList.lookup_insert _
    show Except.ok (((AList.insert id (Record.ofBundle bundle) (∅ : Registry)).lookup id).map (view id)) = _
    rw [there]
    rfl

theorem kept_iff_truthful (sane : Sane outside store) : store.Kept outside ↔ store.Truthful := by
  constructor
  · intro kept id record found saved
    obtain ⟨bundle, has, -, disk⟩ := kept.disk id record found saved
    exact ⟨bundle, has, disk⟩
  · intro truthful
    constructor
    · intro id record found saved
      obtain ⟨bundle, has, disk⟩ := truthful id record found saved
      exact ⟨bundle, has, (sane.records id record bundle found has).2, disk⟩
    · intro id seen got saved
      obtain ⟨valid, got⟩ := check_eq_ok_iff.mp got
      obtain ⟨record, found, rfl⟩ := Option.map_eq_some_iff.mp (Except.ok.inj got)
      obtain ⟨bundle, has, disk⟩ := truthful id record found saved
      exact restores_of_onDisk sane valid found has disk

variable {actions : List Action}

theorem Always.start {holds : Store → Prop} (always : store.Always outside holds actions) : holds store := by
  cases actions with
  | nil => exact always
  | cons action actions => exact always.1

theorem always_kept_iff (sane : Sane outside store) (truthful : store.Truthful) :
    store.Always outside (Kept outside) actions ↔ store.Meets outside sound actions := by
  induction actions generalizing store with
  | nil => exact iff_of_true ((kept_iff_truthful sane).mpr truthful) trivial
  | cons action actions ih =>
    rw [Always, Meets]
    constructor
    · rintro ⟨-, later⟩
      have asks : store.sound action := by
        cases is : store.step outside action with
        | none => exact sound_of_no_step is
        | some both =>
          have kept := (later both.1 both.2 is).start
          exact (truthful_step truthful is).mp ((kept_iff_truthful (sane_step sane is)).mp kept)
      refine ⟨asks, fun outcome after is => ?_⟩
      exact (ih (sane_step sane is) ((truthful_step truthful is).mpr asks)).mp (later outcome after is)
    · rintro ⟨asks, later⟩
      refine ⟨(kept_iff_truthful sane).mpr truthful, fun outcome after is => ?_⟩
      exact (ih (sane_step sane is) ((truthful_step truthful is).mpr asks)).mpr (later outcome after is)

/-- In a run from an empty disk, whatever is marked as saved is on disk and comes back after a restart,
in every state, exactly if every step finds what it must. -/
theorem saved_iff (outside : Outside) (actions : List Action) :
    Store.new.Always outside (Kept outside) actions ↔ Store.new.Meets outside sound actions :=
  always_kept_iff (sane_new outside) fun id record found => by cases found

theorem Always.follow {holds : Store → Prop} (always : store.Always outside holds actions)
    (is : store.follow outside actions = some after) : holds after := by
  induction actions generalizing store with
  | nil =>
    cases is
    exact always
  | cons action actions ih =>
    rw [Store.follow, List.foldlM_cons] at is
    obtain ⟨middle, taken, is⟩ := Option.bind_eq_some_iff.mp is
    obtain ⟨both, happened, rfl⟩ := Option.map_eq_some_iff.mp taken
    exact ih (always.2 both.1 both.2 happened) is

end Runs

section Sample

def sampleWritten : Chance := ⟨.done, List.replicate 32 5, [6]⟩

/-- A save that copies the first revision, and writes it and marks it when there is a second. -/
def sampleOverlap : List Action :=
  [.call (.create "s"), sampleBegin 0, sampleCommit 0, .call (.save "s"), sampleBegin 1, sampleCommit 1,
    .resume 0 sampleWritten, .resume 0 sampleWritten]

/-- The revisions that the record and the file of a marked session have. -/
def revisions (store : Store) (id : String) : Option (ℕ × ℕ) := do
  let record ← store.registry.lookup id
  guard record.saved
  let bundle ← record.bundle
  let content ← store.files.bundles.lookup id
  let key ← store.files.key
  let onDisk ← (content.decrypt key).toOption
  some (bundle.revision, onDisk.revision)

/-- A save that overlaps with a commit marks a revision that is not on disk. -/
theorem overlapping_save_lies : ¬Store.new.Always plainOutside (Kept plainOutside) sampleOverlap := by
  intro always
  have ran : ((Store.new.follow plainOutside sampleOverlap).bind fun store => store.revisions "s") = some (2, 1) := by
    decide +kernel
  obtain ⟨store, is, differ⟩ := Option.bind_eq_some_iff.mp ran
  have kept := always.follow is
  simp only [revisions, Option.bind_eq_bind, Option.bind_eq_some_iff, Option.some.injEq, Prod.mk.injEq] at differ
  obtain ⟨record, found, _, saved, bundle, has, content, file, key, keyed, onDisk, opens, two, one⟩ := differ
  have marked : record.saved = true := by simpa [guard] using saved
  obtain ⟨current, has', -, disk⟩ := kept.disk "s" record found marked
  cases has.symm.trans has'
  have same := disk.unique ⟨content, key, file, keyed, toOption_eq_some_iff.mp opens⟩
  rw [← same, two] at one
  exact absurd one (by decide)

end Sample

end Store

end Muser.Sessions
