import Mathlib.Logic.Relation
import Muser.AuthoritativeVerifier.Checks
import Muser.AuthoritativeVerifier.Run

/-! # What a journal call can do

Every call is a sequence of small steps, each guarded by the checks that the code made before it:
a record written and remembered, an activation, a payload stored, an unlink of a retirement.
`Path` says this once for all calls and all ways in which they can fail, so that an invariant is
proved step by step and never by unfolding a call again. Torn writes and complete writes that were
reported as failures are steps of their own and need `tearing`.
-/

namespace Muser.Verifier

open Relation (ReflTransGen)

variable {p : Primitives} {scope : Scope}

/-- The envelope that the journal writes for a record. -/
def sealed (p : Primitives) (journal : Journal) (directory : Slot) (record : directory.Record) :
    JournalEnvelopeV2 directory.Record where
  protocol := verifierJournalProtocolV2
  kind := directory.kind
  sessionRecordSha256 := journal.sessionRecordSha256
  payload := record
  hmacSha256 := p.hmacSha256Hex journal.key.bytes (MacKey.domainStream verifierJournalMacDomainV2
    (canonical (⟨verifierJournalProtocolV2, directory.kind, journal.sessionRecordSha256, record⟩ :
      JournalUnsignedV2 directory.Record)))

@[simp] theorem sealed_payload (journal : Journal) (directory : Slot) (record : directory.Record) :
    (sealed p journal directory record).payload = record := rfl

theorem journalEnvelope_eq_sealed {journal : Journal} {directory : Slot} {record : directory.Record}
    {envelope : JournalEnvelopeV2 directory.Record}
    (made : journalEnvelope p directory.kind journal.sessionRecordSha256 record journal.key = .ok envelope) :
    envelope = sealed p journal directory record := by
  simp only [journalEnvelope, bind_eq_ok_iff, MacKey.tagDomainHex] at made
  obtain ⟨_, _, _, _, tag, ⟨_, _, tagged⟩, built⟩ := made
  cases tagged
  cases built
  rfl

/-- The file of a request in a directory. -/
def World.file (p : Primitives) (world : World) (directory : Slot) (requestId : String) :
    Option (SlotFile directory.Record) :=
  (world.disk.slots directory).lookup (slotStem p requestId)

theorem World.placeSlot_slots_self (world : World) (directory : Slot) (stem : String)
    (file : SlotFile directory.Record) : (world.placeSlot directory stem file).disk.slots directory =
      (world.disk.slots directory).insert stem file := Disk.setSlots_slots_self ..

variable {directory other : Slot} {world : World} {tearing : Prop} {α : Type} {requestId : String}
  {request : AuthenticatedRoundV2} {result : AuthenticatedResultV2}

theorem World.placeSlot_slots_of_ne (world : World) (stem : String)
    (file : SlotFile directory.Record) (different : other ≠ directory) :
    (world.placeSlot directory stem file).disk.slots other = world.disk.slots other :=
  Disk.setSlots_slots_of_ne _ _ different

section Whole

variable {file : SlotFile directory.Record} {name stem : String} {envelope : JournalEnvelopeV2 other.Record}

/-- A whole file was there before a file was placed, or is the one placed. -/
theorem World.whole_placeSlot
    (found : ((world.placeSlot directory stem file).disk.slots other).lookup name = some (.whole envelope)) :
    (world.disk.slots other).lookup name = some (.whole envelope) ∨
      name = stem ∧ (⟨other, .whole envelope⟩ : Σ directory : Slot, SlotFile directory.Record) = ⟨directory, file⟩ := by
  by_cases same : other = directory
  · subst same
    rw [World.placeSlot_slots_self, Table.lookup_insert_eq] at found
    split at found
    · next at_ =>
      cases found
      exact .inr ⟨at_, rfl⟩
    · exact .inl found
  · rw [World.placeSlot_slots_of_ne _ _ _ same] at found
    exact .inl found

theorem World.whole_of_torn {bytes : Bytes}
    (found : ((world.placeSlot directory stem (.torn bytes)).disk.slots other).lookup name = some (.whole envelope)) :
    (world.disk.slots other).lookup name = some (.whole envelope) := by
  rcases World.whole_placeSlot found with old | ⟨_, is⟩
  · exact old
  · cases is

end Whole

theorem World.file_placeSlot_of_ne (world : World) (stem requestId : String)
    (file : SlotFile directory.Record) (different : other ≠ directory) :
    (world.placeSlot directory stem file).file p other requestId = world.file p other requestId := by
  rw [World.file, World.placeSlot_slots_of_ne _ _ _ different]
  rfl

theorem World.file_setFiles_erase (world : World) (directory : Slot) (stem requestId : String) :
    (world.setFiles directory ((world.disk.slots directory).erase stem)).file p directory requestId =
      if slotStem p requestId = stem then none else world.file p directory requestId := by
  rw [World.file, World.setFiles, Disk.setSlots_slots_self, Table.lookup_erase_eq]
  rfl

theorem World.file_setFiles_of_ne (world : World) (requestId : String)
    (files : Table (SlotFile directory.Record)) (different : other ≠ directory) :
    (world.setFiles directory files).file p other requestId = world.file p other requestId := by
  rw [World.file, World.setFiles, Disk.setSlots_slots_of_ne _ _ different]
  rfl

/-- `write_slot` can succeed: the file is missing, or holds this very record. -/
def World.Free (p : Primitives) (world : World) (directory : Slot) (requestId : String) (record : directory.Record) :
    Prop :=
  world.file p directory requestId = none ∨
    world.file p directory requestId = some (.whole (sealed p world.journal directory record))

/-- The world after a successful `write_slot`. -/
def World.putSlot (p : Primitives) (world : World) (directory : Slot) (requestId : String)
    (record : directory.Record) : World :=
  match world.file p directory requestId with
  | none => world.placeSlot directory (slotStem p requestId) (.whole (sealed p world.journal directory record))
  | some _ => world

/-- A write touches neither the memory nor the payloads nor the history of activations. -/
@[simp] theorem World.putSlot_journal (world : World) (directory : Slot) (requestId : String)
    (record : directory.Record) : (world.putSlot p directory requestId record).journal = world.journal := by
  unfold World.putSlot
  split <;> rfl

@[simp] theorem World.putSlot_activated (world : World) (directory : Slot) (requestId : String)
    (record : directory.Record) : (world.putSlot p directory requestId record).activated = world.activated := by
  unfold World.putSlot
  split <;> rfl

@[simp] theorem World.putSlot_fragments (world : World) (directory : Slot) (requestId : String)
    (record : directory.Record) : (world.putSlot p directory requestId record).disk.fragments = world.disk.fragments := by
  unfold World.putSlot
  split <;> rfl

theorem World.putSlot_slots_of_ne (world : World) (requestId : String)
    (record : directory.Record) (different : other ≠ directory) :
    (world.putSlot p directory requestId record).disk.slots other = world.disk.slots other := by
  unfold World.putSlot
  split
  · exact Disk.setSlots_slots_of_ne _ _ different
  · rfl

theorem writeSlot_ensures (faults : FileOp → Fault) (directory : Slot) (requestId : String)
    (record : directory.Record) (world : World) :
    (writeSlot p faults directory requestId record).Ensures world fun answer after =>
      match answer with
      | .ok _ => world.Free p directory requestId record ∧ after = world.putSlot p directory requestId record
      | .error _ => after = world ∨ (world.file p directory requestId = none ∧ ∃ written,
          faults (.writeSlot directory (slotStem p requestId)) = .torn written ∧
          after = world.placeSlot directory (slotStem p requestId)
            (.prefixOf (sealed p world.journal directory record) written)) := by
  unfold writeSlot
  rw [Prog.ensures_read_bind]
  refine Prog.ensures_lift_bind (fun _ _ => .inl rfl) fun envelope made => ?_
  obtain rfl := journalEnvelope_eq_sealed made
  cases found : (world.disk.slots directory).lookup (slotStem p requestId) with
  | some file =>
    refine Prog.ensures_lift_bind (fun _ _ => .inl rfl) fun existing read => ?_
    cases same : reject (canonical existing != canonical (sealed p world.journal directory record))
        VerifierV2Error.changedIntent with
    | error failure => exact .inl rfl
    | ok answer =>
      rw [reject_eq_ok_iff, bne_eq_false_iff_eq] at same
      obtain rfl := canonical_injective same
      have whole : file = .whole (sealed p world.journal directory record) := by
        cases file with
        | whole envelope =>
          simp only [SlotFile.readJson, check_eq_ok_iff] at read
          rw [Except.ok.inj read.2]
        | torn bytes => simp [SlotFile.readJson, check_eq_ok_iff] at read
      refine ⟨.inr (by rw [World.file, found, whole]), ?_⟩
      simp only [World.putSlot, World.file, found, Prog.lift_apply]
  | none =>
    have absent : world.file p directory requestId = none := found
    unfold writeExclusive
    cases fate : faults (.writeSlot directory (slotStem p requestId)) with
    | done =>
      refine ⟨.inl absent, ?_⟩
      simp only [World.putSlot, absent, Prog.modify_apply]
    | failed => exact .inl rfl
    | torn written => exact .inr ⟨absent, written, rfl, rfl⟩

/-- The record that `write_slot` is about to store, with the checks made before it. -/
inductive Admits (p : Primitives) (scope : Scope) (world : World) : (directory : Slot) → String → directory.Record → Prop
  | reservation {request : AuthenticatedRoundV2} {fence : AuthorityFenceV2} {nowUnixMs : UInt64}
      (passed : request ∈ scope.reserved)
      (checked : world.journal.reserveCheck p request fence nowUnixMs = .ok none) :
      Admits p scope world .reservations request.core.requestId ⟨request, nowUnixMs⟩
  | prepared {request : AuthenticatedRoundV2} {result : AuthenticatedResultV2} {fence : AuthorityFenceV2}
      {nowUnixMs : UInt64} (answered : result ∈ scope.results)
      (checked : world.journal.preparedCheck p request result fence nowUnixMs = .ok none) :
      Admits p scope world .prepared request.core.requestId ⟨request.intentSha256 p, result, nowUnixMs⟩
  | staged {request : AuthenticatedRoundV2} {closure : VerifiedClosureV2 p} {prepared : PreparedRecordV2}
      {receipt : RendererStageReceiptV2} {nowUnixMs : UInt64} (passed : request ∈ scope.presented)
      (checked : world.journal.stageCheck p request closure = .ok (prepared, none))
      (stored : ∀ fragment ∈ closure.fragments,
        world.disk.fragments.lookup fragment.descriptor.sha256 = some fragment.payload)
      (receiptValid : validateStageReceipt p receipt prepared.result = .ok ()) :
      Admits p scope world .staged request.core.requestId ⟨request.core.requestId, prepared.requestIntentSha256,
        prepared.result.recordDigest p, receipt, nowUnixMs⟩
  | commit {request : AuthenticatedRoundV2} {fence : AuthorityFenceV2} {nowUnixMs : UInt64}
      {commit : CommitRecordV2} (passed : request ∈ scope.presented)
      (settled : world.journal.pendingActivation = none)
      (checked : world.journal.commitCheck p request fence nowUnixMs = .ok (.inr commit)) :
      Admits p scope world .commits request.core.requestId commit
  | ack {requestId appliedHeadSha256 : String} {nowUnixMs : UInt64} {ack : AckRecordV2}
      (checked : world.journal.ackCheck p requestId appliedHeadSha256 nowUnixMs = .ok (some ack)) :
      Admits p scope world .acks requestId ack
  | tombstone {requestId : String} {nowUnixMs retryRetentionMs : UInt64} {result : AuthenticatedResultV2}
      {tombstone : TombstoneRecordV2}
      (checked : world.journal.retireCheck p requestId nowUnixMs retryRetentionMs = .ok (result, some tombstone)) :
      Admits p scope world .tombstones requestId tombstone

/-- What the journal remembers once a record is stored. -/
def Journal.memorize (journal : Journal) : (directory : Slot) → String → directory.Record → Journal
  | .reservations, requestId, record =>
    { journal with reservations := journal.reservations.insert requestId record }
  | .prepared, requestId, record => { journal with prepared := journal.prepared.insert requestId record }
  | .staged, requestId, record => { journal with staged := journal.staged.insert requestId record }
  | .commits, _, record => { journal with pendingActivation := some record }
  | .active, _, _ => journal
  | .acks, requestId, record =>
    { journal with acknowledgements := journal.acknowledgements.insert requestId record }
  | .tombstones, requestId, record => { journal with tombstones := journal.tombstones.insert requestId record }

/-- The active record of a commit. -/
def activeRecord (p : Primitives) (commit : CommitRecordV2) (nowUnixMs : UInt64) : ActiveRecordV2 :=
  ⟨commit.request.core.requestId, commit.result.recordDigest p, commit.result.core.newHeadSha256, nowUnixMs⟩

/-- An active file that `write_active` accepts in place of its own record. -/
def World.Agrees (p : Primitives) (world : World) (commit : CommitRecordV2) : Prop :=
  ∃ envelope : JournalEnvelopeV2 ActiveRecordV2, ∃ existing : ActiveRecordV2,
    world.file p .active commit.request.core.requestId = some (.whole envelope) ∧
    decodeJournal p envelope "active" world.journal.sessionRecordSha256 world.journal.key = .ok existing ∧
    existing.requestId = commit.request.core.requestId ∧ existing.resultSha256 = commit.result.recordDigest p ∧
    existing.newHeadSha256 = commit.result.core.newHeadSha256

/-- The world once a commit is applied: the journal advances and the commit enters the history. -/
def World.applied (world : World) (commit : CommitRecordV2) (journal : Journal) : World :=
  { world with
    journal := { journal with pendingActivation := none }
    activated := match world.journal.completions.lookup commit.request.core.requestId with
      | some _ => world.activated
      | none => world.activated ++ [commit] }

/-- A retirement past its tombstone: the completion is still in memory. -/
structure World.Retiring (world : World) (requestId : String) (result : AuthenticatedResultV2) : Prop where
  completed : world.journal.completions.lookup requestId = some result
  tombstoned : (world.journal.tombstones.lookup requestId).isSome = true

/-- The directories that a retirement empties. -/
def retiredSlots : List Slot := [.reservations, .prepared, .staged, .acks]

/-- The small steps of the journal. -/
inductive Micro (p : Primitives) (scope : Scope) (tearing : Prop) : World → World → Prop
  | tear {world : World} {directory : Slot} {requestId : String} {bytes : Bytes} (allowed : tearing)
      (absent : world.file p directory requestId = none) :
      Micro p scope tearing world (world.placeSlot directory (slotStem p requestId) (.torn bytes))
  | stray {world : World} {directory : Slot} {requestId : String} {record : directory.Record} (allowed : tearing)
      (admits : Admits p scope world directory requestId record) (absent : world.file p directory requestId = none) :
      Micro p scope tearing world (world.placeSlot directory (slotStem p requestId)
        (.whole (sealed p world.journal directory record)))
  | strayActive {world : World} {commit : CommitRecordV2} {nowUnixMs : UInt64} (allowed : tearing)
      (pending : world.journal.pendingActivation = some commit)
      (absent : world.file p .active commit.request.core.requestId = none) :
      Micro p scope tearing world (world.placeSlot .active (slotStem p commit.request.core.requestId)
        (.whole (sealed p world.journal .active (activeRecord p commit nowUnixMs))))
  | record {world : World} {directory : Slot} {requestId : String} {record : directory.Record}
      (admits : Admits p scope world directory requestId record) (free : world.Free p directory requestId record) :
      Micro p scope tearing world ((world.putSlot p directory requestId record).setJournal
        (·.memorize directory requestId record))
  | activate {world : World} {commit : CommitRecordV2} {nowUnixMs : UInt64} {journal : Journal}
      (pending : world.journal.pendingActivation = some commit)
      (receiptValid : validateStageReceipt p commit.renderer commit.result = .ok ())
      (absent : world.file p .active commit.request.core.requestId = none)
      (applied : world.journal.applyActive p commit.request commit.result = .ok journal) :
      Micro p scope tearing world ((world.placeSlot .active (slotStem p commit.request.core.requestId)
        (.whole (sealed p world.journal .active (activeRecord p commit nowUnixMs)))).applied commit journal)
  | reactivate {world : World} {commit : CommitRecordV2} {journal : Journal}
      (pending : world.journal.pendingActivation = some commit)
      (receiptValid : validateStageReceipt p commit.renderer commit.result = .ok ())
      (agrees : world.Agrees p commit)
      (applied : world.journal.applyActive p commit.request commit.result = .ok journal) :
      Micro p scope tearing world (world.applied commit journal)
  | jam {world : World} {commit : CommitRecordV2} {nowUnixMs : UInt64} {failure : VerifierV2Error}
      (pending : world.journal.pendingActivation = some commit)
      (absent : world.file p .active commit.request.core.requestId = none)
      (refused : world.journal.applyActive p commit.request commit.result = .error failure) :
      Micro p scope tearing world (world.placeSlot .active (slotStem p commit.request.core.requestId)
        (.whole (sealed p world.journal .active (activeRecord p commit nowUnixMs))))
  | display {world : World} {receipt : RendererStageReceiptV2} :
      Micro p scope tearing world { world with activations := world.activations ++ [receipt] }
  | payload {world : World} {digest : String} {payload : Bytes} (absent : world.disk.fragments.lookup digest = none)
      (sound : p.sha256Hex payload = digest ∨ tearing) :
      Micro p scope tearing world (world.setFragments (world.disk.fragments.insert digest payload))
  | unlinkFragment {world : World} {requestId digest : String} {result : AuthenticatedResultV2}
      (retiring : world.Retiring requestId result) (named : digest ∈ result.core.fragments.map (·.sha256))
      (unprotected : digest ∉ world.journal.protectedDigests requestId) :
      Micro p scope tearing world (world.setFragments (world.disk.fragments.erase digest))
  | unlinkSlot {world : World} {requestId : String} {directory : Slot} {result : AuthenticatedResultV2}
      (retiring : world.Retiring requestId result) (retired : directory ∈ retiredSlots) :
      Micro p scope tearing world (world.setFiles directory ((world.disk.slots directory).erase (slotStem p requestId)))
  | forget {world : World} {requestId : String} {result : AuthenticatedResultV2}
      (retiring : world.Retiring requestId result)
      (unlinked : ∀ directory ∈ retiredSlots, world.file p directory requestId = none) :
      Micro p scope tearing world (world.setJournal (·.forget requestId))

/-- The small steps of a call, in order. -/
abbrev Path (p : Primitives) (scope : Scope) (tearing : Prop) : World → World → Prop :=
  ReflTransGen (Micro p scope tearing)

/-- A property that every small step keeps holds along a path. -/
theorem Path.invariant {tearing : Prop} {invariant : World → Prop}
    (step : ∀ world after, invariant world → Micro p scope tearing world after → invariant after) {world after : World}
    (initial : invariant world) (path : Path p scope tearing world after) : invariant after := by
  induction path with
  | refl => exact initial
  | tail _ last ih => exact step _ _ ih last

/-- Some write of the call stops in the middle or is reported as failed after it completed. -/
def Tearing (faults : FileOp → Fault) : Prop := ∃ operation written, faults operation = .torn written

/-- The world after any outcome of a program is reached by small steps. -/
def Reaches (p : Primitives) (scope : Scope) (tearing : Prop) {α : Type} (program : Prog World VerifierV2Error α)
    (world : World) :
    Prop :=
  program.Ensures world fun _ after => Path p scope tearing world after

theorem Reaches.bind {α β : Type} {first : Prog World VerifierV2Error α}
    {next : α → Prog World VerifierV2Error β} (reached : Reaches p scope tearing first world)
    (rest : ∀ value middle, first world = (.ok value, middle) → Reaches p scope tearing (next value) middle) :
    Reaches p scope tearing (first >>= next) world := by
  unfold Reaches Prog.Ensures at *
  cases ran : first world with
  | mk answer middle =>
    rw [ran] at reached
    cases answer with
    | error failure =>
      rw [Prog.bind_of_error ran]
      exact reached
    | ok value =>
      rw [Prog.bind_of_ok ran]
      exact reached.trans (rest value middle ran)

theorem reaches_pure (value : α) (world : World) :
    Reaches p scope tearing (pure value : Prog World VerifierV2Error α) world := ReflTransGen.refl

theorem reaches_fail (failure : VerifierV2Error) (world : World) :
    Reaches p scope tearing (.fail failure : Prog World VerifierV2Error α) world := ReflTransGen.refl

theorem reaches_read_bind {next : World → Prog World VerifierV2Error α}
    (reached : Reaches p scope tearing (next world) world) : Reaches p scope tearing (.read >>= next) world := reached

theorem reaches_lift_bind {α β : Type} {answer : Except VerifierV2Error α} {next : α → Prog World VerifierV2Error β}
    (reached : ∀ value, answer = .ok value → Reaches p scope tearing (next value) world) :
    Reaches p scope tearing (.lift answer >>= next) world :=
  Prog.ensures_lift_bind (fun _ _ => ReflTransGen.refl) reached

/-- A record write followed by its memory update is one small step; a failed write is none or a tear. -/
theorem reaches_record_bind {faults : FileOp → Fault} {directory : Slot}
    {record : directory.Record} {next : Prog World VerifierV2Error α}
    (admits : Admits p scope world directory requestId record) (rest : Reaches p scope (Tearing faults) next
      ((world.putSlot p directory requestId record).setJournal (·.memorize directory requestId record))) :
    Reaches p scope (Tearing faults) (do
      writeSlot p faults directory requestId record
      .modify (·.setJournal (·.memorize directory requestId record))
      next) world := by
  refine (writeSlot_ensures faults directory requestId record world).bind ?_ ?_
  · rintro _ middle ⟨free, rfl⟩
    exact (ReflTransGen.single (.record admits free)).trans rest
  · rintro failure middle (rfl | ⟨absent, written, torn, rfl⟩)
    · exact ReflTransGen.refl
    · have allowed : Tearing faults := ⟨_, _, torn⟩
      unfold SlotFile.prefixOf
      split
      · exact ReflTransGen.single (.stray allowed admits absent)
      · exact ReflTransGen.single (.tear allowed absent)

theorem reaches_record {faults : FileOp → Fault} {directory : Slot} {record : directory.Record}
    (answer : α) (admits : Admits p scope world directory requestId record) :
    Reaches p scope (Tearing faults) (do
      writeSlot p faults directory requestId record
      .modify (·.setJournal (·.memorize directory requestId record))
      pure answer) world :=
  reaches_record_bind admits (reaches_pure ..)

theorem reserve_reaches (faults : FileOp → Fault) (passed : request ∈ scope.reserved)
    (fence : AuthorityFenceV2) (nowUnixMs : UInt64) (world : World) :
    Reaches p scope (Tearing faults) (reserve p faults request fence nowUnixMs) world := by
  refine reaches_read_bind (reaches_lift_bind fun outcome checked => ?_)
  cases outcome with
  | some outcome => exact reaches_pure ..
  | none => exact reaches_record ReserveOutcomeV2.reserved (.reservation passed checked)

theorem recordPrepared_reaches (faults : FileOp → Fault) (answered : result ∈ scope.results)
    (fence : AuthorityFenceV2) (nowUnixMs : UInt64) (world : World) :
    Reaches p scope (Tearing faults) (recordPrepared p faults request result fence nowUnixMs) world := by
  refine reaches_read_bind (reaches_lift_bind fun existing checked => ?_)
  cases existing with
  | some answer => exact reaches_pure ..
  | none => exact reaches_record () (.prepared answered checked)

theorem acknowledge_reaches (faults : FileOp → Fault) (requestId appliedHeadSha256 : String) (nowUnixMs : UInt64)
    (world : World) :
    Reaches p scope (Tearing faults) (acknowledge p faults requestId appliedHeadSha256 nowUnixMs) world := by
  refine reaches_read_bind (reaches_lift_bind fun ack checked => ?_)
  cases ack with
  | none => exact reaches_pure ..
  | some ack => exact reaches_record () (.ack checked)

/-- Storing payloads changes nothing but the payload directory, and keeps what is there. -/
structure Stores (world after : World) : Prop where
  only : after = world.setFragments after.disk.fragments
  keeps : ∀ digest payload, world.disk.fragments.lookup digest = some payload →
    after.disk.fragments.lookup digest = some payload

theorem Stores.refl (world : World) : Stores world world := ⟨rfl, fun _ _ found => found⟩

theorem Stores.trans {world middle after : World} (first : Stores world middle) (second : Stores middle after) :
    Stores world after := by
  refine ⟨?_, fun digest payload found => second.keeps digest payload (first.keeps digest payload found)⟩
  rw [second.only, first.only]
  rfl

theorem Stores.insert {world : World} {digest : String} {payload : Bytes}
    (absent : world.disk.fragments.lookup digest = none) :
    Stores world (world.setFragments (world.disk.fragments.insert digest payload)) := by
  refine ⟨rfl, fun other stored found => ?_⟩
  have different : other ≠ digest := by
    rintro rfl
    simp [absent] at found
  exact (AList.lookup_insert_ne different).trans found

theorem writeFragment_ensures (scope : Scope) (faults : FileOp → Fault) {fragment : VerifiedFragmentV2} (world : World)
    (described : fragment.descriptor.Describes p fragment.payload) :
    (writeFragment faults fragment).Ensures world fun answer after =>
      Path p scope (Tearing faults) world after ∧ Stores world after ∧
      (answer = .ok () → after.disk.fragments.lookup fragment.descriptor.sha256 = some fragment.payload) := by
  unfold writeFragment
  rw [Prog.ensures_read_bind]
  cases found : world.disk.fragments.lookup fragment.descriptor.sha256 with
  | some payload =>
    refine ⟨ReflTransGen.refl, Stores.refl world, fun accepted => ?_⟩
    have same : payload = fragment.payload := by simpa using accepted
    rw [← same]
    exact found
  | none =>
    cases fate : faults (.writeFragment fragment.descriptor.sha256) with
    | done =>
      refine ⟨ReflTransGen.single (.payload found (.inl described.2)), Stores.insert found, fun _ => ?_⟩
      exact AList.lookup_insert _
    | failed => exact ⟨ReflTransGen.refl, Stores.refl world, by simp⟩
    | torn written =>
      refine ⟨ReflTransGen.single (.payload found (.inr ⟨_, _, fate⟩)), Stores.insert found, ?_⟩
      simp [putFragment]

theorem writeFragments_ensures (scope : Scope) (faults : FileOp → Fault) {fragments : List VerifiedFragmentV2}
    (described : ∀ fragment ∈ fragments, fragment.descriptor.Describes p fragment.payload) (world : World) :
    (forM fragments (writeFragment faults) : Prog World VerifierV2Error PUnit).Ensures world fun answer after =>
      Path p scope (Tearing faults) world after ∧ Stores world after ∧ (answer = .ok () → ∀ fragment ∈ fragments,
        after.disk.fragments.lookup fragment.descriptor.sha256 = some fragment.payload) := by
  induction fragments generalizing world with
  | nil => exact ⟨ReflTransGen.refl, Stores.refl world, by simp⟩
  | cons fragment rest ih =>
    rw [List.forM_cons]
    have head := described fragment (List.mem_cons_self ..)
    refine (writeFragment_ensures scope faults world head).bind ?_ ?_
    · rintro _ middle ⟨path, stores, written⟩
      have tail := ih (fun other member => described other (List.mem_cons_of_mem _ member)) middle
      refine tail.mono fun answer after ⟨path', stores', written'⟩ => ?_
      refine ⟨path.trans path', stores.trans stores', fun accepted other member => ?_⟩
      rcases List.mem_cons.mp member with rfl | later
      · exact stores'.keeps _ _ (written rfl)
      · exact written' accepted other later
    · rintro failure middle ⟨path, stores, _⟩
      exact ⟨path, stores, by simp⟩

theorem stageResult_reaches (faults : FileOp → Fault)
    (passed : request ∈ scope.presented) (closure : VerifiedClosureV2 p) (renderer : VerifierRendererV2 p)
    (nowUnixMs : UInt64) (world : World) :
    Reaches p scope (Tearing faults) (stageResult p faults request closure renderer nowUnixMs) world := by
  refine reaches_read_bind (reaches_lift_bind fun outcome checked => ?_)
  obtain ⟨prepared, staged⟩ := outcome
  cases staged with
  | some receipt => exact reaches_pure ..
  | none =>
    refine (writeFragments_ensures scope faults closure.described world).bind ?_ (fun _ _ held => held.1)
    rintro _ middle ⟨path, stores, stored⟩
    have sameJournal : middle.journal = world.journal := by rw [stores.only]; rfl
    have rest : Reaches p scope (Tearing faults) (do
        let receipt ← .lift ((renderer.stage prepared.result closure nowUnixMs).mapError .renderer)
        .lift (validateStageReceipt p receipt prepared.result)
        writeSlot p faults .staged request.core.requestId ⟨request.core.requestId, prepared.requestIntentSha256,
          prepared.result.recordDigest p, receipt, nowUnixMs⟩
        .modify (·.setJournal (·.memorize .staged request.core.requestId ⟨request.core.requestId,
          prepared.requestIntentSha256, prepared.result.recordDigest p, receipt, nowUnixMs⟩))
        pure receipt) middle := by
      refine reaches_lift_bind fun receipt _ => reaches_lift_bind fun _ valid => ?_
      have checked' : middle.journal.stageCheck p request closure = .ok (prepared, none) := sameJournal ▸ checked
      exact reaches_record receipt (.staged passed checked' (stored rfl) valid)
    exact path.trans rest

/-- `write_active` stores the record, accepts an agreeing file, or fails. -/
theorem writeActive_ensures (faults : FileOp → Fault) (commit : CommitRecordV2) (nowUnixMs : UInt64) (world : World) :
    (writeActive p faults (activeRecord p commit nowUnixMs)).Ensures world fun answer after =>
      match answer with
      | .ok _ => (world.file p .active commit.request.core.requestId = none ∧
          after = world.placeSlot .active (slotStem p commit.request.core.requestId)
            (.whole (sealed p world.journal .active (activeRecord p commit nowUnixMs)))) ∨
          (world.Agrees p commit ∧ after = world)
      | .error _ => after = world ∨ (world.file p .active commit.request.core.requestId = none ∧ ∃ written,
          faults (.writeSlot .active (slotStem p commit.request.core.requestId)) = .torn written ∧
          after = world.placeSlot .active (slotStem p commit.request.core.requestId)
            (.prefixOf (sealed p world.journal .active (activeRecord p commit nowUnixMs)) written)) := by
  unfold writeActive
  rw [Prog.ensures_read_bind]
  cases found : (world.disk.slots .active).lookup (slotStem p (activeRecord p commit nowUnixMs).requestId) with
  | some file =>
    refine Prog.ensures_lift_bind (fun _ _ => .inl rfl) fun envelope read => ?_
    refine Prog.ensures_lift_bind (fun _ _ => .inl rfl) fun existing decoded => ?_
    cases same : reject (existing.requestId != (activeRecord p commit nowUnixMs).requestId ||
        existing.resultSha256 != (activeRecord p commit nowUnixMs).resultSha256 ||
        existing.newHeadSha256 != (activeRecord p commit nowUnixMs).newHeadSha256)
        VerifierV2Error.changedIntent with
    | error failure => exact .inl rfl
    | ok answer =>
      simp only [reject_eq_ok_iff, Bool.or_eq_false_iff, bne_eq_false_iff_eq] at same
      have whole : file = .whole envelope := by
        cases file with
        | whole stored =>
          simp only [SlotFile.readJson, check_eq_ok_iff] at read
          rw [Except.ok.inj read.2]
        | torn bytes => simp [SlotFile.readJson, check_eq_ok_iff] at read
      exact .inr ⟨⟨envelope, existing, whole ▸ found, decoded, same.1.1, same.1.2, same.2⟩, rfl⟩
  | none =>
    have absent : world.file p .active commit.request.core.requestId = none := found
    refine (writeSlot_ensures faults .active _ (activeRecord p commit nowUnixMs) world).mono ?_
    intro answer after written
    cases answer with
    | ok _ =>
      obtain ⟨_, rfl⟩ := written
      refine .inl ⟨absent, ?_⟩
      have missing : world.file p .active (activeRecord p commit nowUnixMs).requestId = none := absent
      rw [World.putSlot, missing]
      rfl
    | error failure => exact written

/-- Applying the pending commit and clearing it, or the refusal that leaves the world as it was. -/
theorem activateCommit_apply (commit : CommitRecordV2) (world : World) :
    (do
      activateCommit p commit
      .modify (·.setJournal fun journal => { journal with pendingActivation := none }) :
      Prog World VerifierV2Error Unit) world =
      match world.journal.applyActive p commit.request commit.result with
      | .ok journal => (.ok (), world.applied commit journal)
      | .error failure => (.error failure, world) := by
  unfold activateCommit
  cases applied : world.journal.applyActive p commit.request commit.result with
  | ok journal =>
    cases found : world.journal.completions.lookup commit.request.core.requestId with
    | some result => simp [bind, applied, found, Prog.read, Prog.lift, Prog.modify, World.setJournal, World.applied]
    | none => simp [bind, applied, found, Prog.read, Prog.lift, Prog.modify, World.setJournal, World.applied]
  | error failure => simp [bind, applied, Prog.read, Prog.lift]

theorem recoverPending_reaches (faults : FileOp → Fault) (renderer : VerifierRendererV2 p) (nowUnixMs : UInt64)
    (world : World) : Reaches p scope (Tearing faults) (recoverPending p faults renderer nowUnixMs) world := by
  refine reaches_read_bind ?_
  cases pending : world.journal.pendingActivation with
  | none => exact reaches_pure ..
  | some commit =>
    refine reaches_lift_bind fun _ receiptValid => reaches_lift_bind fun _ _ => ?_
    -- From here on the renderer's log has grown; the journal and the files are as before.
    let middle : World := { world with activations := world.activations ++ [commit.renderer] }
    have displayed : Path p scope (Tearing faults) world middle := ReflTransGen.single .display
    have pending' : middle.journal.pendingActivation = some commit := pending
    have rest : Reaches p scope (Tearing faults) (do
        writeActive p faults (activeRecord p commit nowUnixMs)
        activateCommit p commit
        .modify (·.setJournal fun journal => { journal with pendingActivation := none })) middle := by
      refine (writeActive_ensures faults commit nowUnixMs middle).bind ?_ ?_
      · rintro _ stored outcome
        rw [Prog.Ensures, activateCommit_apply]
        rcases outcome with ⟨absent, rfl⟩ | ⟨agrees, rfl⟩
        · have journals : (middle.placeSlot .active (slotStem p commit.request.core.requestId)
              (.whole (sealed p middle.journal .active (activeRecord p commit nowUnixMs)))).journal =
                middle.journal := rfl
          rw [journals]
          cases applied : middle.journal.applyActive p commit.request commit.result with
          | ok journal => exact ReflTransGen.single (.activate pending' receiptValid absent applied)
          | error failure => exact ReflTransGen.single (.jam pending' absent applied)
        · cases applied : middle.journal.applyActive p commit.request commit.result with
          | ok journal => exact ReflTransGen.single (.reactivate pending' receiptValid agrees applied)
          | error failure => exact ReflTransGen.refl
      · rintro failure stored (rfl | ⟨absent, written, torn, rfl⟩)
        · exact ReflTransGen.refl
        · have allowed : Tearing faults := ⟨_, _, torn⟩
          unfold SlotFile.prefixOf
          split
          · exact ReflTransGen.single (.strayActive allowed pending' absent)
          · exact ReflTransGen.single (.tear allowed absent)
    exact displayed.trans rest

/-- A recovery that answers leaves nothing pending. -/
theorem recoverPending_settles (faults : FileOp → Fault) (renderer : VerifierRendererV2 p) (nowUnixMs : UInt64)
    {world after : World} {answer : Unit}
    (ran : recoverPending p faults renderer nowUnixMs world = (.ok answer, after)) :
    after.journal.pendingActivation = none := by
  have settled : (recoverPending p faults renderer nowUnixMs).Ensures world fun answer after =>
      answer = .ok () → after.journal.pendingActivation = none := by
    unfold recoverPending
    rw [Prog.ensures_read_bind]
    cases pending : world.journal.pendingActivation with
    | none => exact fun _ => pending
    | some commit =>
      refine Prog.ensures_lift_bind (by simp) fun _ _ => Prog.ensures_lift_bind (by simp) fun _ _ => ?_
      rw [Prog.ensures_modify_bind]
      refine (writeActive_ensures faults commit nowUnixMs _).bind ?_ (fun _ _ _ => by simp)
      intro _ stored _
      rw [Prog.Ensures, activateCommit_apply]
      cases stored.journal.applyActive p commit.request commit.result with
      | ok journal => exact fun _ => rfl
      | error failure => simp
  rw [Prog.Ensures, ran] at settled
  exact settled rfl

theorem commitAndActivate_reaches (faults : FileOp → Fault)
    (passed : request ∈ scope.presented) (fence : AuthorityFenceV2) (renderer : VerifierRendererV2 p)
    (nowUnixMs : UInt64) (world : World) :
    Reaches p scope (Tearing faults) (commitAndActivate p faults request fence renderer nowUnixMs) world := by
  refine (recoverPending_reaches faults renderer nowUnixMs world).bind fun _ middle recovered => ?_
  refine reaches_read_bind (reaches_lift_bind fun outcome checked => ?_)
  cases outcome with
  | inl result => exact reaches_pure ..
  | inr commit =>
    have admits : Admits p scope middle .commits request.core.requestId commit :=
      .commit passed (recoverPending_settles faults renderer nowUnixMs recovered) checked
    refine reaches_record_bind admits ?_
    refine (recoverPending_reaches faults renderer nowUnixMs _).bind fun _ finished _ => ?_
    refine reaches_read_bind ?_
    cases finished.journal.completions.lookup request.core.requestId with
    | some result => exact reaches_pure ..
    | none => exact reaches_fail ..

/-- Unlinking one record file of a retirement. -/
theorem removeSlot_ensures (scope : Scope) (faults : FileOp → Fault) {directory : Slot}
    (retired : directory ∈ retiredSlots) (retiring : world.Retiring requestId result) :
    (removeSlot p faults requestId directory).Ensures world fun answer after =>
      Path p scope (Tearing faults) world after ∧ after.journal = world.journal ∧
      (answer = .ok () → after.file p directory requestId = none) ∧
      ∀ other, world.file p other requestId = none → after.file p other requestId = none := by
  unfold removeSlot
  rw [Prog.ensures_read_bind]
  cases found : (world.disk.slots directory).lookup (slotStem p requestId) with
  | none => exact ⟨ReflTransGen.refl, rfl, fun _ => found, fun _ absent => absent⟩
  | some file =>
    cases faults (.removeSlot directory (slotStem p requestId)) with
    | done =>
      have gone := world.file_setFiles_erase (p := p) directory (slotStem p requestId) requestId
      rw [if_pos rfl] at gone
      refine ⟨ReflTransGen.single (.unlinkSlot retiring retired), rfl, fun _ => gone, fun other absent => ?_⟩
      by_cases same : other = directory
      · subst same
        exact gone
      · exact (world.file_setFiles_of_ne requestId _ same).trans absent
    | failed => exact ⟨ReflTransGen.refl, rfl, by simp, fun _ absent => absent⟩
    | torn written => exact ⟨ReflTransGen.refl, rfl, by simp, fun _ absent => absent⟩

theorem removeSlots_ensures (scope : Scope) (faults : FileOp → Fault) {directories : List Slot}
    (retired : ∀ directory ∈ directories, directory ∈ retiredSlots) (retiring : world.Retiring requestId result) :
    (forM directories (removeSlot p faults requestId) : Prog World VerifierV2Error PUnit).Ensures world
      fun answer after => Path p scope (Tearing faults) world after ∧ after.journal = world.journal ∧
        (answer = .ok () → ∀ directory ∈ directories, after.file p directory requestId = none) ∧
        ∀ other, world.file p other requestId = none → after.file p other requestId = none := by
  induction directories generalizing world with
  | nil => exact ⟨ReflTransGen.refl, rfl, by simp, fun _ absent => absent⟩
  | cons directory rest ih =>
    rw [List.forM_cons]
    refine (removeSlot_ensures scope faults (retired directory (List.mem_cons_self ..)) retiring).bind ?_ ?_
    · rintro _ middle ⟨path, journals, gone, kept⟩
      have retiring' : middle.Retiring requestId result := ⟨journals ▸ retiring.1, journals ▸ retiring.2⟩
      have tail := ih (fun other member => retired other (List.mem_cons_of_mem _ member)) retiring'
      refine tail.mono fun answer after ⟨path', journals', gone', kept'⟩ => ?_
      refine ⟨path.trans path', journals'.trans journals, fun accepted other member => ?_,
        fun other absent => kept' other (kept other absent)⟩
      rcases List.mem_cons.mp member with rfl | later
      · exact kept' _ (gone rfl)
      · exact gone' accepted other later
    · rintro failure middle ⟨path, journals, _, kept⟩
      exact ⟨path, journals, by simp, kept⟩

theorem removeFragments_ensures (scope : Scope) (faults : FileOp → Fault)
    {descriptors : List FragmentDescriptorV2} (named : descriptors ⊆ result.core.fragments)
    (retiring : world.Retiring requestId result) :
    (removeFragments faults (world.journal.protectedDigests requestId) descriptors).Ensures world fun _ after =>
      Path p scope (Tearing faults) world after ∧ after.journal = world.journal := by
  induction descriptors generalizing world with
  | nil => exact ⟨ReflTransGen.refl, rfl⟩
  | cons descriptor rest ih =>
    have tail : ∀ middle : World, Path p scope (Tearing faults) world middle → middle.journal = world.journal →
        ∀ removed : ℕ, (do
          let others ← removeFragments faults (world.journal.protectedDigests requestId) rest
          pure (removed + others) : Prog World VerifierV2Error ℕ).Ensures middle fun _ after =>
            Path p scope (Tearing faults) world after ∧ after.journal = world.journal := by
      intro middle path journals removed
      have retiring' : middle.Retiring requestId result := ⟨journals ▸ retiring.1, journals ▸ retiring.2⟩
      have later := ih (fun other member => named (List.mem_cons_of_mem _ member)) retiring'
      rw [journals] at later
      refine later.bind (fun _ after held => ⟨path.trans held.1, held.2⟩)
        (fun _ after held => ⟨path.trans held.1, held.2⟩)
    unfold removeFragments
    split
    · exact tail world ReflTransGen.refl rfl 0
    · rename_i unprotected
      have fresh : descriptor.sha256 ∉ world.journal.protectedDigests requestId := by simpa using unprotected
      have known : descriptor.sha256 ∈ result.core.fragments.map (·.sha256) :=
        List.mem_map_of_mem (named (List.mem_cons_self ..))
      have removed : (removeFragment faults descriptor.sha256).Ensures world fun _ after =>
          Path p scope (Tearing faults) world after ∧ after.journal = world.journal := by
        unfold removeFragment
        rw [Prog.ensures_read_bind]
        cases world.disk.fragments.lookup descriptor.sha256 with
        | none => exact ⟨ReflTransGen.refl, rfl⟩
        | some payload =>
          cases faults (.removeFragment descriptor.sha256) with
          | done => exact ⟨ReflTransGen.single (.unlinkFragment retiring known fresh), rfl⟩
          | failed => exact ⟨ReflTransGen.refl, rfl⟩
          | torn written => exact ⟨ReflTransGen.refl, rfl⟩
      exact removed.bind (fun count middle held => tail middle held.1 held.2 count) (fun _ _ held => held)

theorem garbageCollect_reaches (faults : FileOp → Fault) (requestId : String)
    (nowUnixMs retryRetentionMs : UInt64) (world : World) :
    Reaches p scope (Tearing faults) (garbageCollect p faults requestId nowUnixMs retryRetentionMs) world := by
  refine reaches_read_bind (reaches_lift_bind fun outcome checked => ?_)
  obtain ⟨result, tombstone⟩ := outcome
  obtain ⟨completed, published⟩ := retireCheck_cases checked
  -- Past the tombstone, every unlink is a step of the retirement.
  have cleanup : ∀ middle : World, middle.Retiring requestId result →
      middle.journal.protectedDigests requestId = world.journal.protectedDigests requestId →
      Reaches p scope (Tearing faults) (do
        let removed ← removeFragments faults (world.journal.protectedDigests requestId) result.core.fragments
        forM [Slot.reservations, .prepared, .staged, .acks] (removeSlot p faults requestId)
        syncRoot faults
        .modify (·.setJournal (·.forget requestId))
        pure removed) middle := by
    intro middle retiring sameProtected
    have fragments := removeFragments_ensures (p := p) scope faults (List.Subset.refl result.core.fragments) retiring
    rw [sameProtected] at fragments
    refine fragments.bind ?_ (fun _ _ held => held.1)
    rintro removed cleared ⟨path, journals⟩
    have retiring' : cleared.Retiring requestId result := ⟨journals ▸ retiring.1, journals ▸ retiring.2⟩
    have slots := removeSlots_ensures (p := p) scope faults (List.Subset.refl retiredSlots) retiring'
    refine slots.bind ?_ (fun _ _ held => path.trans held.1)
    rintro _ unlinked ⟨path', journals', gone, _⟩
    have retired : unlinked.Retiring requestId result := ⟨journals' ▸ retiring'.1, journals' ▸ retiring'.2⟩
    unfold syncRoot
    cases faults .syncRoot with
    | done => exact (path.trans path').tail (.forget retired (gone rfl))
    | failed | torn written => exact path.trans path'
  rcases published with ⟨rfl, existing, tombstoned, _⟩ | ⟨rfl, _, _⟩
  · exact cleanup world ⟨completed, by simp [tombstoned]⟩ rfl
  · change Reaches p scope (Tearing faults) (publishTombstone p faults requestId (some _) >>= fun _ => _) world
    rw [publishTombstone, Prog.bind_assoc]
    refine reaches_record_bind (.tombstone checked) (cleanup _ ⟨?_, ?_⟩ ?_)
    · rw [World.putSlot]
      split <;> exact completed
    · simp [World.setJournal, Journal.memorize]
    · rw [World.putSlot]
      split <;> rfl

/-- Every call is a sequence of small steps. -/
theorem Call.exec_path {call : Call p} (reserved : call.reserved ⊆ scope.reserved)
    (presented : call.presented ⊆ scope.presented) (results : call.results ⊆ scope.results)
    (faults : FileOp → Fault) (world : World) :
    Path p scope (Tearing faults) world (call.exec faults world) := by
  cases call with
  | reserve request fence nowUnixMs => exact reserve_reaches faults (reserved (List.mem_singleton_self _)) ..
  | recordPrepared request result fence nowUnixMs =>
    exact recordPrepared_reaches faults (results (List.mem_singleton_self _)) ..
  | stageResult request closure renderer nowUnixMs =>
    exact stageResult_reaches faults (presented (List.mem_singleton_self _)) ..
  | commitAndActivate request fence renderer nowUnixMs =>
    exact commitAndActivate_reaches faults (presented (List.mem_singleton_self _)) ..
  | recoverPending renderer nowUnixMs => exact recoverPending_reaches ..
  | acknowledge requestId appliedHeadSha256 nowUnixMs => exact acknowledge_reaches ..
  | garbageCollect requestId nowUnixMs retryRetentionMs => exact garbageCollect_reaches ..

/-- The scope of a single call. -/
theorem Call.exec_path_own (call : Call p) (faults : FileOp → Fault) (world : World) :
    Path p ⟨call.reserved, call.presented, call.results⟩ (Tearing faults) world (call.exec faults world) :=
  Call.exec_path (List.Subset.refl _) (List.Subset.refl _) (List.Subset.refl _) faults world

end Muser.Verifier
