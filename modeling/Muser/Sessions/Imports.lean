import Muser.Sessions.Progress

/-! # An import is taken once

A transfer that has been committed is not imported again, as long as no payload is accepted for it any
more, and nothing else was under way for it when its journal came to say so. The code hands out no
upload path once the journal says committed, but a path that was handed out before is still accepted.
-/

namespace Muser.Sessions

open Relation

/-- The transfer that a call under way may still change: its journal, or what it installs. -/
def Pending.transfer : Pending → Option String
  | .removeSource true _ transferId => some transferId
  | .checkSource _ transferId => some transferId
  | .readUpdate _ transferId _ _ _ => some transferId
  | .writeUpdate _ record => some record.view.id
  | .readCut transferId _ _ _ _ => some transferId
  | .writePayload transferId _ _ _ _ _ => some transferId
  | .hashPayload transferId _ _ _ _ _ _ _ => some transferId
  | .writeExport record => some record.view.id
  | .checkSession record => some record.view.id
  | .writeRegistered record => some record.view.id
  | .writePrepared record => some record.view.id
  | .movePayload record _ => some record.view.id
  | .writeAccepted record => some record.view.id
  | .openPayload record _ => some record.view.id
  | .installImported record _ => some record.view.id
  | _ => none

/-- The transfer that a call is taking in. -/
def Pending.importing : Pending → Option String
  | .movePayload record _ => some record.view.id
  | .writeAccepted record => some record.view.id
  | .openPayload record _ => some record.view.id
  | .installImported record _ => some record.view.id
  | .writeCommitted record => some record.view.id
  | _ => none

def Committed (journals : Table TransferRecord) (transferId : String) : Prop :=
  ∃ record, journals.lookup transferId = some record ∧ record.view.status = "committed"

/-- What is so of a transfer between two steps: nothing under way may change it once it is committed. -/
structure Once (journals : Table TransferRecord) (calls : List Pending) (transferId : String) : Prop where
  named : ∀ name record, journals.lookup name = some record → record.view.id = name
  sound : ∀ record, .writeCommitted record ∈ calls → record.view.status = "committed"
  quiet : Committed journals transferId → ∀ pending ∈ calls, pending.transfer ≠ some transferId

namespace Store

def HasCommitted (store : Store) (transferId : String) : Prop := Committed store.files.journals transferId

/-- A payload is accepted, or the journal updated, for a transfer that is committed; or its journal comes
to say so while something else is under way for it. -/
def collides (store : Store) (transferId : String) : Action → Prop
  | .call (.acceptPayload other _) => other = transferId ∧ store.HasCommitted transferId
  | .call (.updateTransfer other _ _ _) => other = transferId ∧ store.HasCommitted transferId
  | .resume index chance => chance.write ≠ .unwritten ∧
      (∃ pending record, store.pending[index]? = some pending ∧ pending.journaled = some record ∧
        record.view.id = transferId ∧
        record.view.status = "committed") ∧
      ∃ other ∈ store.pending.eraseIdx index, other.transfer = some transferId
  | _ => False

/-- A step of accepting a payload for a transfer, or of committing it. -/
def imports (store : Store) (transferId : String) : Action → Prop
  | .call (.acceptPayload other _) => other = transferId
  | .call (.commitImport other _) => other = transferId
  | .resume index _ => ∃ pending, store.pending[index]? = some pending ∧ pending.importing = some transferId
  | .interrupt index _ => ∃ pending, store.pending[index]? = some pending ∧ pending.importing = some transferId
  | _ => False

/-- The step with which a commit of a transfer may end well. -/
def commits (store : Store) (transferId : String) : Action → Prop
  | .call (.commitImport other _) => other = transferId
  | .resume index _ => ∃ record, store.pending[index]? = some (.writeCommitted record) ∧ record.view.id = transferId
  | _ => False

end Store

section Once

open Store

variable {outside : Outside} {store after : Store} {transferId : String} {action : Store.Action} {outcome : Option Outcome}
  {pending next : Pending}

variable {record : TransferRecord}

theorem journal_ok (read : store.journal transferId = .ok record) :
    store.files.journals.lookup transferId = some record := by
  simp only [Store.journal, bind_eq_ok_iff] at read
  obtain ⟨-, -, read⟩ := read
  split at read
  · cases read
  · next found =>
    cases read
    exact found

/-- A call under way goes on for the same transfer. -/
theorem transfer_leads (named : ∀ name record, store.files.journals.lookup name = some record → record.view.id = name)
    (leads : pending.Leads outside store next) : next.transfer = pending.transfer ∨ next.transfer = none := by
  cases leads with
  | saved => exact .inl rfl
  | source => exact .inl rfl
  | unchecked => exact .inl rfl
  | removed => exact .inl rfl
  | retained => exact .inl rfl
  | updates read =>
    have own := named _ _ (journal_ok read)
    exact .inl (congrArg some own)
  | cut => exact .inl rfl
  | sealed => exact .inl rfl
  | hashed => exact .inl rfl
  | registered => exact .inl rfl
  | accepted => exact .inl rfl
  | opened => exact .inl rfl
  | installed => exact .inr rfl

/-- What a call is under way for, once the transfer is committed. -/
theorem transfer_opens {call : Call} (once : Once store.files.journals store.pending transferId)
    (committed : store.HasCommitted transferId) (opens : call.Opens outside store next)
    (spared : ¬store.collides transferId (.call call)) :
    next.transfer ≠ some transferId := by
  obtain ⟨record, found, status⟩ := committed
  intro same
  cases opens with
  | save => cases same
  | restore => cases same
  | delete => cases same
  | reconcileMove read _ acknowledged | reconcileCopy read _ acknowledged =>
    cases same
    cases found.symm.trans (journal_ok read)
    rw [status] at acknowledged
    exact absurd acknowledged (by decide)
  | exports unbound =>
    cases same
    have starting := (unbound record found).1
    rw [status] at starting
    exact absurd starting (by decide)
  | resumes => cases same
  | updates =>
    cases same
    exact spared ⟨rfl, record, found, status⟩
  | registers unbound | prepares unbound =>
    cases same
    cases unbound.symm.trans found
  | accepts read =>
    have own := once.named _ _ (journal_ok read)
    cases same
    exact spared ⟨own.symm, record, found, status⟩
  | commits read uploaded =>
    have own := once.named _ _ (journal_ok read)
    cases same
    rw [← own] at read
    cases found.symm.trans (journal_ok read)
    rw [status] at uploaded
    exact absurd uploaded (by decide)

theorem sound_leads (leads : pending.Leads outside store (.writeCommitted record)) :
    record.view.status = "committed" := by
  cases leads with
  | installed => rfl

theorem sound_opens {call : Call} : ¬call.Opens outside store (.writeCommitted record) := nofun

theorem transfer_journaled (writes : pending.journaled = some record) :
    pending.transfer = some record.view.id ∨ pending = .writeCommitted record := by
  cases pending with
  | writeUpdate reconciles record | writeExport record | writeRegistered record | writePrepared record
  | writeAccepted record =>
    cases writes
    exact .inl rfl
  | writeCommitted record =>
    cases writes
    exact .inr rfl
  | _ => cases writes

/-- The journals after a step of a call: they are as they were, or one is written by it. -/
theorem Store.Written.journals_cases {chance : Chance} {outcome : Outcome} {files : Files}
    (written : store.Written chance pending outcome files) :
    files.journals = store.files.journals ∨ ∃ record answer, chance.write ≠ .unwritten ∧ pending.journaled = some record ∧
      outcome = .ends answer ∧ files.journals = store.files.journals.insert record.view.id record := by
  cases written with
  | none journals => exact .inl journals
  | journal wrote writes ends journals => exact .inr ⟨_, _, wrote, writes, ends, journals⟩
  | payload _ journals => exact .inl journals
  | moved _ _ journals => exact .inl journals

namespace Once

variable {journals : Table TransferRecord} {calls others : List Pending}

theorem drop (once : Once journals calls transferId) (fewer : ∀ pending ∈ others, pending ∈ calls) :
    Once journals others transferId :=
  ⟨once.named, fun record mem => once.sound record (fewer _ mem), fun committed pending mem =>
    once.quiet committed pending (fewer _ mem)⟩

theorem without (once : Once journals calls transferId) (index : ℕ) : Once journals (calls.eraseIdx index) transferId :=
  once.drop fun _ mem => List.mem_of_mem_eraseIdx mem

/-- A call comes to where it stands. -/
theorem join (once : Once journals calls transferId)
    (sound : ∀ record, next = .writeCommitted record → record.view.status = "committed")
    (quiet : Committed journals transferId → next.transfer ≠ some transferId) :
    Once journals (calls ++ [next]) transferId := by
  refine ⟨once.named, fun record mem => ?_, fun committed other mem => ?_⟩
  · rcases List.mem_append.mp mem with mem | mem
    · exact once.sound record mem
    · exact sound record (List.mem_singleton.mp mem).symm
  · rcases List.mem_append.mp mem with mem | mem
    · exact once.quiet committed other mem
    · rw [List.mem_singleton.mp mem]
      exact quiet committed

/-- A journal is written. -/
theorem write {record : TransferRecord} (once : Once journals calls transferId)
    (alone : record.view.id = transferId → record.view.status = "committed" → ∀ other ∈ calls,
      other.transfer ≠ some transferId) :
    Once (journals.insert record.view.id record) calls transferId := by
  refine ⟨fun name other found => ?_, once.sound, ?_⟩
  · rcases Table.lookup_insert_cases found with ⟨rfl, rfl⟩ | ⟨-, found⟩
    · rfl
    · exact once.named name other found
  · rintro ⟨other, found, status⟩
    rcases Table.lookup_insert_cases found with ⟨same, rfl⟩ | ⟨-, found⟩
    · exact alone same.symm status
    · exact once.quiet ⟨other, found, status⟩

end Once

/-- A call goes on from where it stood. -/
theorem once_leads (once : Once store.files.journals store.pending transferId) (at_ : store.pending[index]? = some pending)
    (leads : pending.Leads outside store next) :
    Once store.files.journals (store.pending.eraseIdx index ++ [next]) transferId := by
  refine (once.without index).join (fun record same => sound_leads (same ▸ leads)) fun committed busy => ?_
  rcases transfer_leads once.named leads with kept | none
  · exact once.quiet committed pending (List.mem_of_getElem? at_) (kept ▸ busy)
  · rw [none] at busy
    cases busy

theorem once_step (once : Once store.files.journals store.pending transferId) (spared : ¬store.collides transferId action)
    (is : store.step outside action = some (outcome, after)) : Once after.files.journals after.pending transferId := by
  cases Store.step_progress is with
  | opened files opens calls =>
    rw [files, calls]
    exact once.join (fun record same => absurd (same ▸ opens) sound_opens) fun committed =>
      transfer_opens once committed opens spared
  | @finished index chance pending answer at_ written calls =>
    rw [calls]
    have rest := once.without index
    rcases written.journals_cases with same | ⟨record, _, wrote, writes, -, same⟩
    · rw [same]
      exact rest
    · rw [same]
      exact rest.write fun own status other mem busy =>
        spared ⟨wrote, ⟨pending, record, at_, writes, own, status⟩, other, mem, busy⟩
  | @went index chance pending next at_ written leads _ calls =>
    rw [calls]
    rcases written.journals_cases with same | ⟨_, _, _, _, ends, _⟩
    · rw [same]
      exact once_leads once at_ leads
    · cases ends
  | @failed index failure pending at_ files calls =>
    rw [files, calls]
    exact once.without index
  | @noted index failure pending next at_ files leads _ calls =>
    rw [files, calls]
    exact once_leads once at_ leads
  | ended files calls | uploaded files calls =>
    rw [files, calls]
    exact once
  | crashed files calls =>
    rw [files, calls]
    exact once.drop fun _ mem => absurd mem List.not_mem_nil

/-- Once committed, a transfer stays so. -/
theorem committed_step (once : Once store.files.journals store.pending transferId)
    (committed : store.HasCommitted transferId)
    (is : store.step outside action = some (outcome, after)) : after.HasCommitted transferId := by
  have written : ∀ (index : ℕ) chance pending began files, store.pending[index]? = some pending →
      store.Written chance pending began files → Committed files.journals transferId := by
    intro index chance pending began files at_ written
    have mem := List.mem_of_getElem? at_
    rcases written.journals_cases with same | ⟨record, _, -, writes, -, same⟩
    · rw [same]
      exact committed
    · rw [same]
      by_cases own : record.view.id = transferId
      · subst own
        refine ⟨record, AList.lookup_insert _, ?_⟩
        rcases transfer_journaled writes with busy | rfl
        · exact absurd busy (once.quiet committed pending mem)
        · exact once.sound record mem
      · obtain ⟨other, found, status⟩ := committed
        exact ⟨other, by rw [AList.lookup_insert_ne (Ne.symm own)]; exact found, status⟩
  rw [Store.HasCommitted]
  cases Store.step_progress is with
  | finished at_ wrote | went at_ wrote => exact written _ _ _ _ _ at_ wrote
  | ended files | opened files | failed _ files | noted _ files _ _ | uploaded files | crashed files =>
    rw [files]
    exact committed

theorem untouched_resume {chance : Chance} (other : pending.transfer ≠ some transferId)
    (importing : pending.importing = some transferId) :
    (store.resume outside chance pending).2.registry = store.registry ∧
      (store.resume outside chance pending).2.files.bundles = store.files.bundles := by
  cases pending with
  | movePayload record path | writeAccepted record | openPayload record expected
  | installImported record bundle => exact absurd importing other
  | writeCommitted record => exact ⟨rfl, rfl⟩
  | _ => cases importing

/-- What it takes to import a session is not there any more. -/
theorem untouched_step (once : Once store.files.journals store.pending transferId)
    (committed : store.HasCommitted transferId)
    (imports : store.imports transferId action) (is : store.step outside action = some (outcome, after)) :
    after.registry = store.registry ∧ after.files.bundles = store.files.bundles := by
  cases action with
  | call call =>
    cases call with
    | acceptPayload other path =>
      cases is
      rw [registry_keep, files_keep]
      exact ⟨rfl, rfl⟩
    | commitImport other expected =>
      cases is
      rw [registry_keep, files_keep]
      exact ⟨rfl, rfl⟩
    | _ => cases imports
  | resume index chance =>
    obtain ⟨pending, at_, importing⟩ := imports
    simp only [Store.step, at_, Option.map_some, Option.some.injEq, Prod.mk.injEq] at is
    obtain ⟨-, rfl⟩ := is
    rw [registry_keep, files_keep]
    exact untouched_resume (once.quiet committed pending (List.mem_of_getElem? at_)) importing
  | interrupt index failure =>
    obtain ⟨pending, at_, importing⟩ := imports
    simp only [Store.step, at_, Option.map_some, Option.some.injEq, Prod.mk.injEq] at is
    obtain ⟨-, rfl⟩ := is
    rw [registry_keep, files_keep]
    exact ⟨rfl, rfl⟩
  | _ => cases imports

theorem committed_of_commits {answer : Answer} (once : Once store.files.journals store.pending transferId)
    (commits : store.commits transferId action) (is : store.step outside action = some (some (.ends (.ok answer)), after)) :
    after.HasCommitted transferId := by
  cases action with
  | call call =>
    cases call with
    | commitImport other expected =>
      obtain rfl : other = transferId := commits
      simp only [Store.step, start, Option.some.injEq, Prod.mk.injEq] at is
      obtain ⟨ends, rfl⟩ := is
      rw [HasCommitted, files_keep]
      rw [checkCommit] at ends
      split at ends
      · cases ends
      · next record read =>
        simp only [bind_eq_ok_iff] at read
        obtain ⟨record', read, ⟨⟩, -, same⟩ := read
        cases same
        split at ends
        · next status => exact ⟨record, journal_ok read, status⟩
        · split at ends
          · cases ends
          · cases ends
    | _ => cases commits
  | resume index chance =>
    obtain ⟨record, at_, rfl⟩ := commits
    simp only [Store.step, at_, Option.map_some, Option.some.injEq, Prod.mk.injEq] at is
    obtain ⟨ends, rfl⟩ := is
    rw [HasCommitted, files_keep]
    simp only [Store.resume, writeJournal, Outcome.ends.injEq] at ends ⊢
    cases wrote : chance.write with
    | done => exact ⟨record, AList.lookup_insert _, once.sound record (List.mem_of_getElem? at_)⟩
    | _ =>
      rw [wrote] at ends
      cases ends
  | _ => cases commits

theorem once_run {first later : Store}
    (run : ReflTransGen (Steps outside fun store action => ¬store.collides transferId action) first later)
    (once : Once first.files.journals first.pending transferId) : Once later.files.journals later.pending transferId := by
  refine kept_of_run (P := fun store : Store => Once store.files.journals store.pending transferId) ?_ run once
  rintro store after ⟨action, outcome, spared, is⟩ once
  exact once_step once spared is

/-- A transfer is imported once when no payload is accepted for it after it has been committed, and
nothing else is under way for it when its journal comes to say so. -/
theorem import_once {first later : Store} {answer : Answer}
    (before : ReflTransGen (Steps outside fun store action => ¬store.collides transferId action) .new store)
    (commits : store.commits transferId action) (spared : ¬store.collides transferId action)
    (is : store.step outside action = some (some (.ends (.ok answer)), first))
    (run : ReflTransGen (Steps outside fun store action => ¬store.collides transferId action) first later) :
    later.HasCommitted transferId ∧ ∀ action outcome after, later.imports transferId action →
      later.step outside action = some (outcome, after) →
        after.registry = later.registry ∧ after.files.bundles = later.files.bundles := by
  have new : Once Store.new.files.journals Store.new.pending transferId :=
    ⟨fun name record found => absurd found nofun, nofun, nofun⟩
  have once := once_run before new
  have committed := committed_of_commits once commits is
  have both : Once later.files.journals later.pending transferId ∧ later.HasCommitted transferId := by
    refine kept_of_run (P := fun store : Store => Once store.files.journals store.pending transferId ∧
      store.HasCommitted transferId)
      ?_ run ⟨once_step once spared is, committed⟩
    rintro store after ⟨action, outcome, spared, is⟩ ⟨once, committed⟩
    exact ⟨once_step once spared is, committed_step once committed is⟩
  exact ⟨both.2, fun action outcome after imports is => untouched_step both.1 both.2 imports is⟩

end Once

section Sample

open Store

/-- The state of a session as another server sent it. -/
def sentBundle : SessionBundle := { oneTokenBundle "s" with revision := 1 }

def sentContent : Content := .envelope (List.replicate 32 5) [] sentBundle

def samplePrepare : Action :=
  .call (.prepareImport "t" "s" "other" "move" "decode" 1 (plainOutside.sha256 sentContent) (List.replicate 32 5)
    sentBundle.identity)

def writes : Action := .resume 0 ⟨.done, List.replicate 32 6, []⟩

def commitSample : List Action := [.call (.commitImport "t" sentBundle.identity), writes, writes]

/-- A transfer is prepared and uploaded, twice over, and the first upload is accepted and committed. -/
def sampleImport : List Action :=
  [samplePrepare, writes, .upload "one" sentContent, .upload "two" sentContent, .call (.acceptPayload "t" "one"),
    writes, writes] ++ commitSample

/-- The session goes on by one revision, the second upload is accepted, and the transfer is committed again. -/
def sampleAgain : List Action :=
  [.call (.begin "s" 1 "key" [1]),
    .call (.commit "s" 1 "key" [1] (oneTokenBundle "s") ⟨"t", 1, 1, "stop", 7, 0, [42], [42]⟩),
    .call (.acceptPayload "t" "two"), writes, writes, .call (.commitImport "t" sentBundle.identity), writes]

/-- The session goes on by one revision, and the transfer is asked for once more. -/
def sampleLater : List Action := sampleAgain.take 2 ++ [.call (.commitImport "t" sentBundle.identity)]

/-- One call at a time, and no payload for what is committed. -/
def calm (store : Store) (transferId : String) : Action → Bool
  | .call (.acceptPayload _ _) =>
    !(store.files.journals.lookup transferId).any fun record => record.view.status == "committed"
  | .call (.updateTransfer _ _ _ _) => false
  | .resume _ _ => store.pending.length ≤ 1
  | _ => true

theorem calm_spares {store : Store} {transferId : String} {action : Action} (calm : calm store transferId action) :
    ¬store.collides transferId action := by
  intro collides
  cases action with
  | call call =>
    cases call with
    | acceptPayload other path =>
      obtain ⟨rfl, record, found, status⟩ := collides
      simp [Sessions.calm, found, status] at calm
    | updateTransfer => cases calm
    | _ => cases collides
  | resume index chance =>
    obtain ⟨-, ⟨pending, _, at_, -⟩, other, mem, -⟩ := collides
    obtain ⟨bound, -⟩ := List.getElem?_eq_some_iff.mp at_
    have few : store.pending.length ≤ 1 := of_decide_eq_true calm
    have none : (store.pending.eraseIdx index).length = 0 := by rw [List.length_eraseIdx_of_lt bound]; omega
    rw [List.eq_nil_of_length_eq_zero none] at mem
    cases mem
  | _ => cases collides

def calmly (store : Store) (action : Action) : Option Store :=
  if calm store "t" action then (store.step plainOutside action).map Prod.snd else none

theorem calmly_steps {store after : Store} {action : Action} (is : calmly store action = some after) :
    Steps plainOutside (fun store action => ¬store.collides "t" action) store after := by
  rw [calmly] at is
  split at is
  · next calm =>
    obtain ⟨⟨outcome, _⟩, taken, rfl⟩ := Option.map_eq_some_iff.mp is
    exact ⟨action, outcome, calm_spares calm, taken⟩
  · cases is

def Outcome.isOk : Option Outcome → Bool
  | some (.ends (.ok _)) => true
  | _ => false

theorem Outcome.isOk_eq {outcome : Option Outcome} (is : isOk outcome) : ∃ answer, outcome = some (.ends (.ok answer)) := by
  rw [isOk.eq_def] at is
  split at is
  · exact ⟨_, rfl⟩
  · cases is

/-- The import of the sample, its commit, and what may follow it. -/
theorem sample_import : ∃ store first later after : Store, ∃ answer outcome,
    ReflTransGen (Steps plainOutside fun store action => ¬store.collides "t" action) .new store ∧
      store.commits "t" writes ∧ ¬store.collides "t" writes ∧
      store.step plainOutside writes = some (some (.ends (.ok answer)), first) ∧
      ReflTransGen (Steps plainOutside fun _ _ => True) first later ∧ later.imports "t" writes ∧
      later.step plainOutside writes = some (outcome, after) ∧
      (later.registry.lookup "s").map Record.revision = some 2 ∧ (after.registry.lookup "s").map Record.revision = some 1 ∧
      ∃ next, sampleLater.foldlM calmly first = some next ∧ (next.registry.lookup "s").map Record.revision = some 2 := by
  have ran : (sampleImport.foldlM calmly .new).any fun store =>
      (store.pending[0]?.any fun pending => pending.transfer == none && pending.importing == some "t") && calm
        store "t" writes &&
        (store.step plainOutside writes).any fun both =>
          Outcome.isOk both.1 && (both.2.follow plainOutside sampleAgain).any fun later =>
          (later.pending[0]?.any fun pending =>
            pending.importing == some "t") && (later.step plainOutside writes).any fun last =>
            (later.registry.lookup "s").map Record.revision == some 2 && (last.2.registry.lookup "s").map
              Record.revision == some 1 &&
              (sampleLater.foldlM calmly both.2).any fun next =>
                (next.registry.lookup "s").map Record.revision == some 2 := by
    decide +kernel
  simp only [Option.any_eq_true, Bool.and_eq_true, beq_iff_eq] at ran
  obtain ⟨store, done, ⟨⟨pending, at_, last, importing⟩, calm⟩, ⟨outcome, first⟩, committed, ok, later, again,
    ⟨pending', at', importing'⟩,
    ⟨outcome', after⟩, taken, ⟨two, one⟩, next, goes, still⟩ := ran
  obtain ⟨answer, rfl⟩ := Outcome.isOk_eq ok
  refine ⟨store, first, later, after, answer, outcome', foldlM_run (fun _ _ _ _ is => calmly_steps is) done, ?_,
    calm_spares calm,
    committed, follow_run (fun _ _ _ => trivial) again, ⟨pending', at', importing'⟩, taken, two, one, next, goes, still⟩
  cases pending with
  | writeCommitted record => exact ⟨record, at_, Option.some.inj importing⟩
  | movePayload record path => cases last
  | writeAccepted record => cases last
  | openPayload record expected => cases last
  | installImported record bundle => cases last
  | _ => cases importing

/-- A second upload that was on its way is accepted after the commit, and the import done again. -/
theorem accepted_again_sets_back : ¬∀ (store first later : Store) (transferId : String) (action : Action) (answer : Answer),
    ReflTransGen (Steps plainOutside fun _ _ => True) .new store → store.commits transferId action →
      store.step plainOutside action = some (some (.ends (.ok answer)), first) →
      ReflTransGen (Steps plainOutside fun _ _ => True) first later →
      later.HasCommitted transferId ∧ ∀ action outcome after, later.imports transferId action →
        later.step plainOutside action = some (outcome, after) →
          after.registry = later.registry ∧ after.files.bundles = later.files.bundles := by
  intro claim
  obtain ⟨store, first, later, after, answer, outcome, before, commits, -, committed, again, imports, taken, two, one,
    -⟩ := sample_import
  have reached : ReflTransGen (Steps plainOutside fun _ _ => True) .new store := by
    refine kept_of_run ?_ before .refl
    rintro store after ⟨action, outcome, -, is⟩ run
    exact run.tail ⟨action, outcome, trivial, is⟩
  obtain ⟨-, untouched⟩ := claim store first later "t" writes answer reached commits committed again
  rw [(untouched writes outcome after imports taken).1, two] at one
  cases one

theorem import_once_sample : ∃ first later : Store, sampleLater.foldlM calmly first = some later ∧
    (later.registry.lookup "s").map Record.revision = some 2 ∧ later.HasCommitted "t" ∧
    ∀ action outcome after, later.imports "t" action → later.step plainOutside action = some (outcome, after) →
      after.registry = later.registry ∧ after.files.bundles = later.files.bundles := by
  obtain ⟨store, first, -, -, answer, -, before, commits, spared, committed, -, -, -, -, -, later, goes, revision⟩ :=
    sample_import
  have run : ReflTransGen (Steps plainOutside fun store action => ¬store.collides "t" action) first later :=
    foldlM_run (fun _ _ _ _ is => calmly_steps is) goes
  exact ⟨first, later, goes, revision, import_once before commits spared committed run⟩

end Sample

end Muser.Sessions
