import Muser.Sessions.Importing

/-! # What a move keeps

The two sides together: a removal waits for an answer, an answer for a commit, and what is committed is
a cut. So the session that is removed is the one that was committed, if it is still as it was cut.
-/

namespace Muser.Sessions

open Relation

/-- The committed state of a session after a step is what it was, or what the step puts in its place. -/
theorem Store.bundle_step {outside : Outside} {store after : Store} {action : Store.Action}
    {outcome : Option Outcome} {id : String}
    {record : Record} {bundle : SessionBundle} (is : store.step outside action = some (outcome, after))
    (found : after.registry.lookup id = some record) (has : record.bundle = some bundle) :
    (∃ before, store.registry.lookup id = some before ∧ before.bundle = some bundle) ∨
      store.puts outside id action = some bundle := by
  have change := Store.step_change is
  generalize after.registry = registry at change found
  cases change with
  | kept => exact .inl ⟨record, found, has⟩
  | created is =>
    obtain ⟨-, rfl⟩ := Registry.create_ok is
    rcases Table.lookup_insert_cases found with ⟨rfl, rfl⟩ | ⟨-, found⟩
    · cases has
    · exact .inl ⟨record, found, has⟩
  | deleted is =>
    obtain ⟨-, rfl⟩ := Registry.delete_ok is
    exact .inl ⟨record, (Table.lookup_erase_eq_some found).2, has⟩
  | begun is =>
    obtain ⟨record', found', ⟨_, _, _, _, _, rfl⟩ | ⟨_, _, _, _, rfl⟩⟩ := Registry.begin_ok is
    · exact .inl ⟨record, found, has⟩
    · rcases Table.lookup_insert_cases found with ⟨rfl, rfl⟩ | ⟨-, found⟩
      · exact .inl ⟨record', found', has⟩
      · exact .inl ⟨record, found, has⟩
  | @aborted other =>
    obtain ⟨before, was, same, -⟩ := Registry.bundle_of_changed (Registry.lookup_abort ..) (fun _ => ⟨rfl, rfl⟩) found
    exact .inl ⟨before, was, same.trans has⟩
  | @committed other key revision next hash bundle' result _ valid is =>
    obtain ⟨record', -, -, -, rfl, rfl⟩ := Registry.commit_ok is
    rcases Table.lookup_insert_cases found with ⟨rfl, rfl⟩ | ⟨-, found⟩
    · cases has
      refine .inr ?_
      rw [puts, valid, is, if_pos ⟨rfl, rfl, rfl⟩]
    · exact .inl ⟨record, found, has⟩
  | @saved _ _ other _ =>
    obtain ⟨before, was, same, -⟩ := Registry.bundle_of_changed (Registry.lookup_markSaved ..) (fun _ => ⟨rfl, rfl⟩) found
    exact .inl ⟨before, was, same.trans has⟩
  | restored at_ is =>
    have same := Registry.restore_ok is
    subst same
    rcases Table.lookup_insert_cases found with ⟨rfl, rfl⟩ | ⟨-, found⟩
    · cases has
      refine .inr ?_
      rw [puts, at_]
      dsimp only
      rw [is, if_pos ⟨rfl, rfl⟩]
    · exact .inl ⟨record, found, has⟩
  | removed => exact .inl ⟨record, (Table.lookup_erase_eq_some found).2, has⟩
  | imported at_ admits done =>
    rcases Table.lookup_insert_cases found with ⟨rfl, rfl⟩ | ⟨-, found⟩
    · cases has
      refine .inr ?_
      rw [puts, at_]
      dsimp only
      rw [admits, if_pos ⟨rfl, rfl, done⟩]
    · exact .inl ⟨record, found, has⟩
  | crashed => cases found

namespace Moving

variable {outside : Outside} {transfer : Transfer} {moving after : Moving} {event : Event}

variable {action : Store.Action}

/-- A cut is of the session's committed state. -/
theorem cutBy_current (safe : moving.Safe transfer) {cut : SessionBundle}
    (mem : cut ∈ cutBy transfer moving.source action) :
    ∃ record, moving.source.registry.lookup transfer.sessionId = some record ∧ record.bundle = some cut := by
  cases action with
  | resume index chance =>
    rw [cutBy] at mem
    split at mem
    · next other id destination mode tier at_ =>
      split at mem
      · next own =>
        obtain ⟨rfl, -⟩ := safe.exports.calls _ (List.mem_of_getElem? at_) own
        cases committed : moving.source.registry.committed transfer.sessionId with
        | error failure =>
          rw [committed] at mem
          cases mem
        | ok bundle =>
          rw [committed] at mem
          rw [List.mem_singleton.mp mem]
          exact Registry.committed_ok committed
      · cases mem
    · cases mem
  | _ => cases mem

theorem puts_of_cutBy {store : Store} {id : String} (cuts : cutBy transfer store action ≠ []) :
    store.puts outside id action = none := by
  cases action with
  | resume index chance =>
    rw [cutBy] at cuts
    split at cuts
    · next at_ => rw [Store.puts, at_]
    · exact absurd rfl cuts
  | _ => exact absurd rfl cuts

theorem mem_left {bundle : SessionBundle} {cuts more : List SessionBundle} (mem : bundle ∈ cuts) : bundle ∈ cuts ++ more :=
  List.mem_append_left _ mem

/-- All cuts of a session that is moved are its committed state. -/
theorem current_step (safe : moving.Safe transfer) {outcome : Option Outcome} {store : Store}
    (spared : ¬moving.overwrites transfer outside (.source action))
    (is : moving.source.step outside action = some (outcome, store)) (moves : transfer.mode = "move") :
    ∀ cut ∈ moving.cuts ++ cutBy transfer moving.source action, ∀ record bundle,
      store.registry.lookup transfer.sessionId = some record → record.bundle = some bundle → bundle = cut := by
  intro cut mem record bundle found has
  rcases List.mem_append.mp mem with mem | mem
  · rcases Store.bundle_step is found has with ⟨before, was, had⟩ | puts
    · exact safe.current moves cut mem before bundle was had
    · by_contra differs
      exact spared ⟨moves, bundle, puts, cut, mem, differs⟩
  · obtain ⟨before, was, had⟩ := cutBy_current safe mem
    rcases Store.bundle_step is found has with ⟨before', was', had'⟩ | puts
    · cases was.symm.trans was'
      exact Option.some.inj (had'.symm.trans had)
    · rw [puts_of_cutBy (List.ne_nil_of_mem mem)] at puts
      cases puts

theorem safe_step (safe : moving.Safe transfer) (spared : ¬moving.overwrites transfer outside event)
    (is : moving.step transfer outside event = some after) : after.Safe transfer := by
  cases event with
  | source action =>
    rw [step] at is
    split at is
    · next allowed =>
      obtain ⟨⟨outcome, store⟩, taken, rfl⟩ := Option.map_eq_some_iff.mp is
      refine ⟨exports_step safe.exports ?_ taken, safe.imports.mono (fun _ mem => mem_left mem) id,
        fun content mem => (safe.sent content mem).mono fun _ mem => mem_left mem, safe.answers,
        fun bundle mem => mem_left (safe.imported bundle mem), fun moves => current_step safe spared taken moves⟩
      rintro call next rfl opens
      exact outgoing_opens safe.exports allowed opens
    · cases is
  | acknowledge status error sourceDeleted =>
    rw [step] at is
    split at is
    · next answered =>
      obtain ⟨⟨outcome, store⟩, taken, rfl⟩ := Option.map_eq_some_iff.mp is
      obtain ⟨view, mem, told⟩ := List.any_eq_true.mp answered
      simp only [Bool.and_eq_true, beq_iff_eq] at told
      have imported := safe.answers view mem told.1 told.2
      have exports := exports_step safe.exports ?_ taken
      · simp only [cutBy, List.append_nil] at exports
        refine ⟨exports, safe.imports, safe.sent, safe.answers, safe.imported,
          fun moves cut mem record bundle found has => ?_⟩
        rcases Store.bundle_step taken found has with ⟨before, was, had⟩ | puts
        · exact safe.current moves cut mem before bundle was had
        · cases puts
      · rintro call next same opens
        cases same
        cases opens
        exact fun _ _ => imported
    · cases is
  | send =>
    cases is
    refine ⟨safe.exports, safe.imports, fun content mem => ?_, safe.answers, safe.imported, safe.current⟩
    rcases List.mem_append.mp mem with mem | mem
    · exact safe.sent content mem
    · exact safe.exports.payload content (Option.mem_toList.mp mem)
  | deliver path index =>
    obtain ⟨content, at_, is⟩ := Option.bind_eq_some_iff.mp is
    cases is
    refine ⟨safe.exports, ?_, safe.sent, safe.answers, safe.imported, safe.current⟩
    refine ⟨safe.imports.named, safe.imports.journal, fun other content' found => ?_, safe.imports.payload,
      safe.imports.calls⟩
    rcases Table.lookup_insert_cases found with ⟨-, rfl⟩ | ⟨-, found⟩
    · exact safe.sent _ (List.mem_of_getElem? at_)
    · exact safe.imports.staging other content' found
  | destination action =>
    rw [step] at is
    split at is
    · next allowed =>
      obtain ⟨⟨outcome, store⟩, taken, rfl⟩ := Option.map_eq_some_iff.mp is
      have more : moving.imports ≠ [] → moving.imports ++ importedBy transfer moving.destination action ≠ [] :=
        fun some none => some (List.append_eq_nil_iff.mp none).1
      refine ⟨safe.exports.mono (fun _ mem => mem) more,
        imports_step safe.imports more (fun some none => some (List.append_eq_nil_iff.mp none).2) allowed taken,
        safe.sent, fun view mem own status => ?_, fun bundle mem => ?_, safe.current⟩
      · rcases List.mem_append.mp mem with mem | mem
        · exact more (safe.answers view mem own status)
        · exact more (answered_step safe.imports taken mem own status)
      · rcases List.mem_append.mp mem with mem | mem
        · exact safe.imported bundle mem
        · exact importedBy_cut safe.imports mem
    · cases is
  | ask =>
    cases is
    refine ⟨safe.exports, safe.imports, safe.sent, fun view mem own status => ?_, safe.imported, safe.current⟩
    rcases List.mem_append.mp mem with mem | mem
    · exact safe.answers view mem own status
    · obtain ⟨record, found, rfl⟩ := List.mem_map.mp mem
      exact safe.imports.journal record (Option.mem_toList.mp found) status

theorem safe_run (run : ReflTransGen (Steps transfer outside) new moving) : moving.Safe transfer := by
  refine kept_of_run (P := fun moving : Moving => moving.Safe transfer) ?_ run ?_
  · rintro moving after ⟨event, spared, is⟩ safe
    exact safe_step safe spared is
  · have exports : Store.new.Exports transfer [] ([] ≠ ([] : List SessionBundle)) := by
      constructor
      all_goals intros
      all_goals contradiction
    have imports : Store.new.Imports transfer [] ([] ≠ ([] : List SessionBundle)) := by
      constructor
      all_goals intros
      all_goals contradiction
    exact ⟨exports, imports, fun _ mem => absurd mem List.not_mem_nil, fun _ mem => absurd mem List.not_mem_nil,
      fun _ mem => absurd mem List.not_mem_nil, fun _ _ mem => absurd mem List.not_mem_nil⟩

/-- A move loses nothing as long as the session stays at the source as it was cut. -/
theorem move_keeps (run : ReflTransGen (Steps transfer outside) new moving) : moving.Keeps transfer := by
  intro index chance reconciles id record at_ found done
  have safe := safe_run run
  obtain ⟨imported, rfl, moves⟩ := safe.exports.calls _ (List.mem_of_getElem? at_) rfl
  refine ⟨moves, fun bundle has => .inl ?_⟩
  obtain ⟨first, rest, imports⟩ := List.exists_cons_of_ne_nil imported
  have mem : first ∈ moving.imports := by rw [imports]; exact List.mem_cons_self ..
  rw [safe.current moves first (safe.imported first mem) record bundle found has]
  exact mem

end Moving

section Sample

open Moving

def sampleTransfer : Transfer := ⟨"t", "s", "move"⟩

def sampleIdentity : Identity := (oneTokenBundle "s").identity

/-- A session is committed, cut and sent, and the destination commits it. -/
def sampleSent : List Event :=
  [.source (.call (.create "s")), .source (.call (.begin "s" 0 "key" [1])),
    .source (.call (.commit "s" 0 "key" [1] (oneTokenBundle "s") ⟨"t", 1, 1, "stop", 7, 0, [42], [42]⟩)),
    .source (.call (.beginExport "t" "s" "there" "move" "decode")), .source writes, .source writes, .source writes,
      .source writes, .send,
    .destination (.call (.prepareImport "t" "s" "here" "move" "decode" 1 (plainOutside.sha256 sentContent)
      (List.replicate 32 6) sampleIdentity)),
    .destination writes, .deliver "path" 0, .destination (.call (.acceptPayload "t" "path")), .destination writes,
      .destination writes,
    .destination (.call (.commitImport "t" sampleIdentity)), .destination writes, .destination writes, .destination writes]

/-- The session goes on at the source. -/
def sampleMutation : List Event :=
  [.source (.call (.begin "s" 1 "later" [1])),
    .source (.call (.commit "s" 1 "later" [1] (oneTokenBundle "s") ⟨"t", 1, 1, "stop", 7, 0, [42], [42]⟩))]

/-- The source hears of the commit, and is about to remove the session. -/
def sampleRemoval : List Event :=
  [.acknowledge "destination_committed" none false, .source writes, .source writes,
    .source (.call (.reconcileOutgoingAfterAck "t")), .source writes]

def Pending.removes (id transferId : String) : Pending → Bool
  | .removeSource _ other otherId => other == id && otherId == transferId
  | _ => false

theorem Pending.removes_eq {pending : Pending} {id transferId : String} (is : pending.removes id transferId) :
    ∃ reconciles, pending = .removeSource reconciles id transferId := by
  rw [removes.eq_def] at is
  split at is
  · simp only [Bool.and_eq_true, beq_iff_eq] at is
    obtain ⟨rfl, rfl⟩ := is
    exact ⟨_, rfl⟩
  · cases is

def sampleRevision (content : Content) : ℕ :=
  match content with
  | .envelope _ _ bundle => bundle.revision
  | .other _ => 0

/-- The session is removed next, at a revision; the others are those that the destination and the payload have. -/
def about (moving : Moving) (revision : ℕ) (held : List ℕ) : Bool :=
  (moving.source.pending[0]?.any (Pending.removes "s" "t")) && (moving.source.removeSource ⟨.done, [],
    []⟩ "s").1.toOption == some true &&
    ((moving.source.registry.lookup "s").any fun record => record.bundle.any fun bundle => bundle.revision == revision) &&
      moving.imports.map SessionBundle.revision ++
        (moving.source.files.payloads.lookup "t").toList.map sampleRevision == held

theorem about_next {moving : Moving} {revision : ℕ} {held : List ℕ} (is : about moving revision held) :
    ∃ reconciles record bundle, moving.source.pending[0]? = some (.removeSource reconciles "s" "t") ∧
      moving.source.registry.lookup "s" = some record ∧ (moving.source.removeSource ⟨.done, [], []⟩ "s").1 = .ok true ∧
      record.bundle = some bundle ∧ bundle.revision = revision ∧
      moving.imports.map SessionBundle.revision ++
        (moving.source.files.payloads.lookup "t").toList.map sampleRevision = held := by
  simp only [about, Bool.and_eq_true, Option.any_eq_true, beq_iff_eq] at is
  obtain ⟨⟨⟨⟨pending, at_, removes⟩, done⟩, record, found, bundle, has, same⟩, others⟩ := is
  obtain ⟨reconciles, rfl⟩ := Pending.removes_eq removes
  refine ⟨reconciles, record, bundle, at_, found, ?_, has, same, others⟩
  cases removed : (moving.source.removeSource ⟨.done, [], []⟩ "s").1 with
  | error failure =>
    rw [removed] at done
    cases done
  | ok found =>
    rw [removed] at done
    cases done
    rfl

/-- A step that puts nothing in the place of the session, or takes place before the first cut. -/
def spares (moving : Moving) : Event → Bool
  | .source action => moving.cuts.isEmpty || (moving.source.puts plainOutside "s" action).isNone
  | _ => true

def sparingly (moving : Moving) (event : Event) : Option Moving :=
  if spares moving event then moving.step sampleTransfer plainOutside event else none

private theorem samples_move :
    (((sampleSent ++ sampleMutation ++ sampleRemoval).foldlM (Moving.step sampleTransfer plainOutside) new).any fun moving =>
        about moving 2 [1, 1]) = true ∧
      (((sampleSent ++ sampleRemoval).foldlM sparingly new).any fun moving => about moving 1 [1, 1]) = true := by
  decide +kernel

/-- A revision that is committed between the cut and the removal is held nowhere. -/
theorem moved_session_loses_revision : ¬∀ moving : Moving,
    ReflTransGen (fun moving after => ∃ event, moving.step sampleTransfer plainOutside event = some after) new moving →
      moving.Keeps sampleTransfer := by
  intro claim
  obtain ⟨moving, moved, is⟩ := (Option.any_eq_true ..).mp samples_move.1
  obtain ⟨reconciles, record, bundle, at_, found, done, has, two, others⟩ := about_next is
  obtain ⟨-, kept⟩ := claim moving (foldlM_run (fun event _ _ _ taken => ⟨event, taken⟩) moved) 0 _ reconciles "s"
    record at_ found done
  have old : bundle.revision ∈ [1, 1] := by
    rw [← others]
    rcases kept bundle has with mem | ⟨key, nonce, held⟩
    · exact List.mem_append_left _ (List.mem_map_of_mem mem)
    · refine List.mem_append_right _ ?_
      show bundle.revision ∈ (moving.source.files.payloads.lookup sampleTransfer.id).toList.map sampleRevision
      rw [held]
      exact List.mem_singleton_self _
  rw [two] at old
  exact absurd old (by decide)

theorem sparingly_steps {moving after : Moving} {event : Event} (is : sparingly moving event = some after) :
    Steps sampleTransfer plainOutside moving after := by
  rw [sparingly] at is
  split at is
  · next spared =>
    refine ⟨event, ?_, is⟩
    cases event with
    | source action =>
      rintro ⟨-, bundle, puts, cut, mem, -⟩
      rw [spares, Bool.or_eq_true] at spared
      rcases spared with none | none
      · rw [List.isEmpty_iff.mp none] at mem
        cases mem
      · rw [show moving.source.puts plainOutside "s" action = some bundle from puts] at none
        cases none
    | _ => exact id
  · cases is

theorem move_keeps_sample : ∃ (moving : Moving) (reconciles : Bool),
    moving.source.pending[0]? = some (.removeSource reconciles "s" "t") ∧ moving.Keeps sampleTransfer := by
  obtain ⟨moving, moved, is⟩ := (Option.any_eq_true ..).mp samples_move.2
  obtain ⟨reconciles, -, -, at_, -⟩ := about_next is
  exact ⟨moving, reconciles, at_, move_keeps (foldlM_run (fun _ _ _ _ taken => sparingly_steps taken) moved)⟩

end Sample

end Muser.Sessions
