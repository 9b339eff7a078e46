import Muser.Server.Streams
import Mathlib.Tactic.SplitIfs

/-! # What a reader receives

The buffer of a session is the end of what the session accepted, from the offset that is not dropped. A
reader has received what was accepted from its start on, up to its offset.
-/

namespace Muser.Server

open Muser.Engine

structure Inner.Holds (inner : Inner) (accepted : Bytes) : Prop where
  total : inner.total = inner.dropped + inner.bytes.length
  counted : inner.total = accepted.length
  suffix : inner.bytes = accepted.drop inner.dropped
  bounded : inner.bytes.length ≤ maxStreamBytes
  ended : inner.cancelled = true → inner.done = true

structure Reader.Holds (reader : Reader) (inner : Inner) (accepted : Bytes) : Prop where
  received : reader.received <+: accepted.drop reader.start
  lost : reader.reading = .lost → reader.offset < inner.dropped
  done : reader.reading = .done → inner.done = true ∧ reader.received = accepted.drop reader.start

section Session

variable {inner : Inner} {accepted chunk : Bytes} {reader : Reader}

theorem Inner.fresh_holds : Inner.fresh.Holds [] where
  total := rfl
  counted := rfl
  suffix := rfl
  bounded := Nat.zero_le _
  ended := id

theorem Inner.append_nil (inner : Inner) : inner.append [] = (true, inner) := rfl

/-- An ended session refuses what is not empty. -/
theorem Inner.append_of_done (nonempty : chunk ≠ []) (done : inner.done = true) : inner.append chunk = (false, inner) := by
  rw [Inner.append, List.isEmpty_eq_false_iff.mpr nonempty, done, Bool.true_or]
  rfl

/-- An open session accepts what is not empty: it keeps the end of a large chunk, or makes room for a small one. -/
theorem Inner.append_of_open (holds : inner.Holds accepted) (bounded : (accepted ++ chunk).length < usizeBound)
    (nonempty : chunk ≠ []) (ongoing : inner.done = false) : ∃ next, inner.append chunk = (true, next) ∧
      next.Holds (accepted ++ chunk) ∧ inner.dropped ≤ next.dropped := by
  have cancelled : inner.cancelled = false := by
    cases cancelled : inner.cancelled with
    | true => exact absurd ((holds.ended cancelled).symm.trans ongoing) (Bool.noConfusion)
    | false => rfl
  rw [List.length_append] at bounded
  have counted := holds.counted
  have total := holds.total
  have held := holds.bounded
  have sum : saturatingAdd inner.total chunk.length = accepted.length + chunk.length := by
    rw [saturatingAdd, counted]
    lia
  rw [Inner.append, List.isEmpty_eq_false_iff.mpr nonempty, ongoing, cancelled, if_neg (Bool.noConfusion),
    if_neg (Bool.noConfusion), sum]
  -- the bound is a number too large to count down from, so it gets a name
  generalize is : maxStreamBytes = limit at held ⊢
  dsimp only
  by_cases large : limit ≤ chunk.length
  · refine ⟨_, if_pos large, ⟨?_, rfl.trans List.length_append.symm, ?_, ?_, fun is => (Bool.false_ne_true is).elim⟩, ?_⟩
    · dsimp only
      rw [List.length_drop]
      lia
    · have start : accepted.length + chunk.length - limit = accepted.length + (chunk.length - limit) := by lia
      dsimp only
      rw [start, List.drop_length_add_append]
    · rw [List.length_drop]
      lia
    · dsimp only
      lia
  · have room : saturatingAdd inner.bytes.length chunk.length = inner.bytes.length + chunk.length := by
      rw [saturatingAdd]
      lia
    have gone : saturatingAdd inner.dropped (inner.bytes.length + chunk.length - limit) =
        inner.dropped + (inner.bytes.length + chunk.length - limit) := by
      rw [saturatingAdd]
      lia
    simp only [room, gone]
    refine ⟨_, if_neg large, ⟨?_, rfl.trans List.length_append.symm, ?_, ?_, fun is => (Bool.false_ne_true is).elim⟩, ?_⟩
    · dsimp only
      rw [List.length_append, List.length_drop]
      lia
    · have start : inner.dropped + (inner.bytes.length + chunk.length - limit) ≤ accepted.length := by lia
      dsimp only
      rw [List.drop_append_of_le_length start, ← List.drop_drop, ← holds.suffix]
    · rw [List.length_append, List.length_drop]
      lia
    · exact Nat.le_add_right _ _

/-- What is refused changes nothing. -/
theorem Inner.append_refused (refused : (inner.append chunk).1 = false) : (inner.append chunk).2 = inner := by
  rw [Inner.append] at refused ⊢
  split_ifs at refused ⊢
  rfl

/-- Whether it accepts or not, a session keeps the end of what it accepted and does not take dropped bytes back. -/
theorem Inner.append_holds (holds : inner.Holds accepted) (bounded : (accepted ++ chunk).length < usizeBound) :
    (inner.append chunk).2.Holds (if (inner.append chunk).1 then accepted ++ chunk else accepted) ∧
      inner.dropped ≤ (inner.append chunk).2.dropped := by
  rcases eq_or_ne chunk [] with rfl | nonempty
  · rw [Inner.append_nil, if_pos rfl, List.append_nil]
    exact ⟨holds, le_rfl⟩
  · cases ongoing : inner.done with
    | true =>
      rw [Inner.append_of_done nonempty ongoing]
      exact ⟨holds, le_rfl⟩
    | false =>
      obtain ⟨next, same, keeps, dropped⟩ := Inner.append_of_open holds bounded nonempty ongoing
      rw [same]
      exact ⟨keeps, dropped⟩

theorem Inner.Holds.finish (holds : inner.Holds accepted) (now : ℕ) : (inner.finish now).Holds accepted := by
  rw [Inner.finish]
  split
  · exact holds
  · exact ⟨holds.total, holds.counted, holds.suffix, holds.bounded, fun _ => rfl⟩

theorem Inner.Holds.cancel (holds : inner.Holds accepted) (now : ℕ) : (inner.cancel now).Holds accepted :=
  ⟨holds.total, holds.counted, holds.suffix, holds.bounded, fun _ => rfl⟩

/-- What there is to read is what was accepted from the offset on. -/
theorem Inner.snapshot_eq (holds : inner.Holds accepted) (bounded : accepted.length < usizeBound) (offset : ℕ) :
    inner.snapshot offset =
      if offset < inner.dropped then .lost
      else if offset < accepted.length then .data (accepted.drop offset)
      else if inner.done then .done else .pending := by
  have reach : (inner.dropped + inner.bytes.length) % usizeBound = accepted.length := by
    rw [← holds.total, holds.counted, Nat.mod_eq_of_lt bounded]
  rw [Inner.snapshot, reach]
  split_ifs with dropped inside
  · rfl
  · have split : inner.dropped + (offset - inner.dropped) = offset := by omega
    rw [holds.suffix, List.drop_drop, split]
  · rfl
  · rfl

/-- A session that changes without accepting, and does not reopen, leaves its readers where they are. -/
theorem Reader.Holds.keep {next : Inner} (holds : reader.Holds inner accepted) (dropped : inner.dropped = next.dropped)
    (done : inner.done = true → next.done = true) : reader.Holds next accepted where
  received := holds.received
  lost told := dropped ▸ holds.lost told
  done told := ⟨done (holds.done told).1, (holds.done told).2⟩

theorem Reader.Holds.append (holds : reader.Holds inner accepted) (sound : inner.Holds accepted)
    (bounded : (accepted ++ chunk).length < usizeBound) :
    reader.Holds (inner.append chunk).2 (if (inner.append chunk).1 then accepted ++ chunk else accepted) := by
  rcases eq_or_ne chunk [] with rfl | nonempty
  · rw [Inner.append_nil, if_pos rfl, List.append_nil]
    exact holds
  · cases ended : inner.done with
    | true =>
      rw [Inner.append_of_done nonempty ended]
      exact holds
    | false =>
      refine ⟨?_, fun told => (holds.lost told).trans_le (Inner.append_holds sound bounded).2, fun told => ?_⟩
      · split
        · refine holds.received.trans ?_
          rw [List.drop_append]
          exact List.prefix_append _ _
        · exact holds.received
      · rw [(holds.done told).1] at ended
        cases ended

/-- A reader that asks once more receives the bytes from its offset on, or learns why there are none. -/
theorem Reader.Holds.told (holds : reader.Holds inner accepted) (sound : inner.Holds accepted)
    (bounded : accepted.length < usizeBound) (asking : reader.reading = .open) :
    (reader.told (inner.snapshot reader.offset)).Holds inner accepted := by
  obtain ⟨rest, whole⟩ := holds.received
  have offset : accepted.drop reader.offset = rest := by
    rw [Reader.offset, ← List.drop_drop, ← whole, List.drop_left]
  rw [Inner.snapshot_eq sound bounded]
  split_ifs with dropped inside ended
  · exact ⟨holds.received, fun _ => dropped, fun told => Reading.noConfusion told⟩
  · rw [offset]
    refine ⟨?_, fun told => ?_, fun told => ?_⟩
    · exact whole ▸ List.prefix_rfl
    · exact absurd (asking.symm.trans told) (by decide)
    · exact absurd (asking.symm.trans told) (by decide)
  · refine ⟨holds.received, fun told => Reading.noConfusion told, fun _ => ⟨ended, ?_⟩⟩
    rw [List.drop_eq_nil_of_le (Nat.le_of_not_lt inside)] at offset
    change reader.received = accepted.drop reader.start
    rw [← whole, ← offset, List.append_nil]
  · exact holds

end Session

/-- Every session keeps the end of what it accepted, and every reader holds a part of it. -/
structure StreamWorld.Delivers (world : StreamWorld) : Prop where
  paired : world.accepted.length = world.manager.arena.length
  sessions : ∀ (handle : ℕ) (session : StreamSession) (accepted : Bytes), world.manager.arena[handle]? = some session →
    world.accepted[handle]? = some accepted → session.inner.Holds accepted
  held : ∀ reader ∈ world.readers, reader.handle < world.manager.arena.length
  readers : ∀ reader ∈ world.readers, ∀ (session : StreamSession) (accepted : Bytes),
    world.manager.arena[reader.handle]? = some session → world.accepted[reader.handle]? = some accepted →
    reader.Holds session.inner accepted

namespace StreamWorld

variable {world : StreamWorld}

theorem initial_delivers : initial.Delivers where
  paired := rfl
  sessions _ _ _ found := by cases found
  held _ member := absurd member List.not_mem_nil
  readers _ member := absurd member List.not_mem_nil

/-- Only the sessions that were made matter, not what is kept under the conversations. -/
theorem Delivers.keep (delivers : world.Delivers) (manager : StreamManager) (arena : manager.arena = world.manager.arena) :
    { world with manager := manager }.Delivers where
  paired := arena ▸ delivers.paired
  sessions handle session accepted found := delivers.sessions handle session accepted (arena ▸ found)
  held reader member := arena ▸ delivers.held reader member
  readers reader member session accepted found := delivers.readers reader member session accepted (arena ▸ found)

/-- A session is changed, together with what it accepted. -/
theorem Delivers.modify (delivers : world.Delivers) (handle : ℕ) (change : Inner → Inner) (grow : Bytes → Bytes)
    (keeps : ∀ (session : StreamSession) (accepted : Bytes), world.manager.arena[handle]? = some session →
      world.accepted[handle]? = some accepted → (change session.inner).Holds (grow accepted) ∧
        ∀ reader : Reader, reader.Holds session.inner accepted → reader.Holds (change session.inner) (grow accepted)) :
    { world with
      manager := world.manager.modify handle change
      accepted := world.accepted.modify handle grow }.Delivers where
  paired := by
    dsimp only [StreamManager.modify]
    rw [List.length_modify, List.length_modify]
    exact delivers.paired
  sessions other session accepted found log := by
    dsimp only [StreamManager.modify] at found log
    rcases eq_or_ne handle other with rfl | different
    · rw [List.getElem?_modify_eq] at found log
      obtain ⟨before, here, rfl⟩ := Option.map_eq_some_iff.mp found
      obtain ⟨shorter, logged, rfl⟩ := Option.map_eq_some_iff.mp log
      exact (keeps before shorter here logged).1
    · rw [List.getElem?_modify_ne _ _ different] at found log
      exact delivers.sessions other session accepted found log
  held reader member := by
    dsimp only [StreamManager.modify]
    rw [List.length_modify]
    exact delivers.held reader member
  readers reader member session accepted found log := by
    dsimp only [StreamManager.modify] at found log
    rcases eq_or_ne handle reader.handle with rfl | different
    · rw [List.getElem?_modify_eq] at found log
      obtain ⟨before, here, rfl⟩ := Option.map_eq_some_iff.mp found
      obtain ⟨shorter, logged, rfl⟩ := Option.map_eq_some_iff.mp log
      exact (keeps before shorter here logged).2 reader (delivers.readers reader member before shorter here logged)
    · rw [List.getElem?_modify_ne _ _ different] at found log
      exact delivers.readers reader member session accepted found log

/-- A change that accepts nothing and does not reopen. -/
theorem Delivers.change (delivers : world.Delivers) (handle : ℕ) (change : Inner → Inner)
    (holds : ∀ (inner : Inner) (accepted : Bytes), inner.Holds accepted → (change inner).Holds accepted)
    (dropped : ∀ inner, inner.dropped = (change inner).dropped)
    (done : ∀ inner : Inner, inner.done = true → (change inner).done = true) :
    { world with manager := world.manager.modify handle change }.Delivers := by
  have kept := delivers.modify handle change id fun session accepted found log =>
    ⟨holds _ _ (delivers.sessions handle session accepted found log), fun reader is => is.keep (dropped _) (done _)⟩
  rwa [List.modify_id] at kept

theorem Delivers.cancel (delivers : world.Delivers) (handle now : ℕ) :
    { world with manager := world.manager.modify handle fun inner => inner.cancel now }.Delivers :=
  delivers.change handle _ (fun _ _ holds => holds.cancel now) (fun _ => rfl) fun _ _ => rfl

theorem Delivers.finish (delivers : world.Delivers) (handle now : ℕ) :
    { world with manager := world.manager.modify handle fun inner => inner.finish now }.Delivers := by
  refine delivers.change handle _ (fun _ _ holds => holds.finish now) (fun inner => ?_) fun inner done => ?_
  · rw [Inner.finish]
    split <;> rfl
  · rw [Inner.finish, if_pos done]
    exact done

theorem Delivers.cancelPrevious (delivers : world.Delivers) (previous : Option ℕ) (now : ℕ) :
    { world with manager := StreamManager.cancelPrevious previous world.manager now }.Delivers := by
  cases previous with
  | none => exact delivers
  | some handle => exact delivers.cancel handle now

/-- A fresh session has accepted nothing and has no readers. -/
theorem Delivers.insert (delivers : world.Delivers) (id : String) (now : ℕ) :
    { world with manager := world.manager.insert id now, accepted := world.accepted ++ [[]] }.Delivers where
  paired := by
    dsimp only [StreamManager.insert]
    rw [List.length_append, List.length_append, delivers.paired, List.length_singleton, List.length_singleton]
  sessions handle session accepted found log := by
    dsimp only [StreamManager.insert] at found log
    rcases Nat.lt_or_ge handle world.manager.arena.length with before | after
    · rw [List.getElem?_append_left before] at found
      rw [List.getElem?_append_left (delivers.paired ▸ before)] at log
      exact delivers.sessions handle session accepted found log
    · rw [List.getElem?_append_right after] at found
      rw [List.getElem?_append_right (delivers.paired ▸ after)] at log
      have made := List.mem_singleton.mp (List.mem_of_getElem? found)
      have none_yet := List.mem_singleton.mp (List.mem_of_getElem? log)
      rw [made, none_yet]
      exact Inner.fresh_holds
  held reader member := by
    dsimp only [StreamManager.insert]
    rw [List.length_append]
    exact Nat.lt_add_right _ (delivers.held reader member)
  readers reader member session accepted found log := by
    have before := delivers.held reader member
    dsimp only [StreamManager.insert] at found log
    rw [List.getElem?_append_left before] at found
    rw [List.getElem?_append_left (delivers.paired ▸ before)] at log
    exact delivers.readers reader member session accepted found log

theorem Delivers.appended (delivers : world.Delivers) (handle : ℕ) (chunk : Bytes)
    (bounded : ∀ accepted ∈ (world.appended handle chunk).accepted, accepted.length < usizeBound) :
    (world.appended handle chunk).Delivers := by
  cases found : world.manager.arena[handle]? with
  | none =>
    rw [StreamWorld.appended, found]
    exact delivers
  | some session =>
    have as_modify : world.appended handle chunk = { world with
        manager := world.manager.modify handle fun inner => (inner.append chunk).2
        accepted := world.accepted.modify handle fun accepted =>
          if (session.inner.append chunk).1 then accepted ++ chunk else accepted } := by
      rw [StreamWorld.appended, found]
      cases accepts : (session.inner.append chunk).1 with
      | true => simp only [accepts, ↓reduceIte]
      | false =>
        simp only [accepts, Bool.false_eq_true, ↓reduceIte]
        rw [show (fun accepted : Bytes => accepted) = id from rfl, List.modify_id]
    rw [as_modify] at bounded ⊢
    refine delivers.modify handle _ _ fun other accepted here log => ?_
    obtain rfl : session = other := Option.some.inj (found.symm.trans here)
    have holds := delivers.sessions handle session accepted found log
    have member : (if (session.inner.append chunk).1 then accepted ++ chunk else accepted) ∈
        world.accepted.modify handle fun accepted => if (session.inner.append chunk).1 then accepted ++
          chunk else accepted := by
      refine List.mem_of_getElem? (i := handle) ?_
      rw [List.getElem?_modify_eq, log]
      rfl
    have short := bounded _ member
    -- a chunk that is refused changes nothing, whatever its length
    cases accepts : (session.inner.append chunk).1 with
    | true =>
      rw [accepts, if_pos rfl] at short
      have kept := (Inner.append_holds holds short).1
      rw [accepts] at kept
      refine ⟨kept, fun reader is => ?_⟩
      have after := is.append holds short
      rwa [accepts] at after
    | false =>
      have same : (session.inner.append chunk).2 = session.inner := Inner.append_refused accepts
      rw [same]
      exact ⟨holds, fun reader is => is⟩

/-- A reader asks, or has its answer already. -/
theorem Delivers.answer (delivers : world.Delivers) (bounded : ∀ accepted ∈ world.accepted, accepted.length < usizeBound)
    {reader : Reader} (member : reader ∈ world.readers) : (world.answer reader).handle = reader.handle ∧
      ∀ (session : StreamSession) (accepted : Bytes), world.manager.arena[reader.handle]? = some session →
        world.accepted[reader.handle]? = some accepted → (world.answer reader).Holds session.inner accepted := by
  have holds := delivers.readers reader member
  cases reading : reader.reading with
  | lost | done =>
    rw [StreamWorld.answer, reading]
    exact ⟨rfl, holds⟩
  | «open» =>
    cases found : world.manager.arena[reader.handle]? with
    | none =>
      rw [StreamWorld.answer, reading, found]
      exact ⟨rfl, fun session accepted here => by cases here⟩
    | some session =>
      rw [StreamWorld.answer, reading, found]
      refine ⟨?_, fun other accepted here log => ?_⟩
      · dsimp only
        cases session.inner.snapshot reader.offset <;> rfl
      · obtain rfl : session = other := Option.some.inj here
        exact (holds session accepted found log).told (delivers.sessions _ session accepted found log)
          (bounded accepted (List.mem_of_getElem? log)) reading

theorem Delivers.read (delivers : world.Delivers) (bounded : ∀ accepted ∈ world.accepted, accepted.length < usizeBound)
    (index : ℕ) : { world with readers := world.readers.modify index world.answer }.Delivers := by
  have cases_ : ∀ reader ∈ world.readers.modify index world.answer,
      reader ∈ world.readers ∨ ∃ asking ∈ world.readers, world.answer asking = reader := by
    intro reader member
    obtain ⟨place, found⟩ := List.mem_iff_getElem?.mp member
    rcases eq_or_ne index place with rfl | different
    · rw [List.getElem?_modify_eq] at found
      obtain ⟨asking, here, is⟩ := Option.map_eq_some_iff.mp found
      exact .inr ⟨asking, List.mem_of_getElem? here, is⟩
    · rw [List.getElem?_modify_ne _ _ different] at found
      exact .inl (List.mem_of_getElem? found)
  refine ⟨delivers.paired, delivers.sessions, fun reader member => ?_, fun reader member session accepted found log => ?_⟩
  · rcases cases_ reader member with old | ⟨asking, old, rfl⟩
    · exact delivers.held reader old
    · rw [(delivers.answer bounded old).1]
      exact delivers.held asking old
  · rcases cases_ reader member with old | ⟨asking, old, rfl⟩
    · exact delivers.readers reader old session accepted found log
    · obtain ⟨same, holds⟩ := delivers.answer bounded old
      rw [same] at found log
      exact holds session accepted found log

theorem Delivers.attach (delivers : world.Delivers) {handle : ℕ} (inside : handle < world.manager.arena.length) (start : ℕ) :
    { world with readers := world.readers ++
        [({ handle := handle, start := start, received := [], reading := .open } : Reader)] }.Delivers := by
  refine ⟨delivers.paired, delivers.sessions, fun reader member => ?_, fun reader member session accepted found log => ?_⟩
  · rcases List.mem_append.mp member with old | new
    · exact delivers.held reader old
    · rw [List.mem_singleton.mp new]
      exact inside
  · rcases List.mem_append.mp member with old | new
    · exact delivers.readers reader old session accepted found log
    · rw [List.mem_singleton.mp new]
      exact ⟨List.nil_prefix, fun told => Reading.noConfusion told, fun told => Reading.noConfusion told⟩

/-- One locked section keeps every session and every reader right. -/
theorem Delivers.step (delivers : world.Delivers) (event : StreamEvent)
    (bounded : ∀ accepted ∈ (world.step event).accepted, accepted.length < usizeBound) : (world.step event).Delivers := by
  cases event with
  | append handle chunk => exact delivers.appended handle chunk bounded
  | finish handle now => exact delivers.finish handle now
  | cancel handle now => exact delivers.cancel handle now
  | createOrReplace id now =>
    have swept := delivers.keep (world.manager.gc now) rfl
    exact (swept.insert id now).cancelPrevious _ now
  | evictAndCancel id now =>
    have removed := delivers.keep (world.manager.remove id) rfl
    exact removed.cancelPrevious _ now
  | gc now => exact delivers.keep _ rfl
  | insert id now => exact delivers.insert id now
  | attach handle start =>
    rw [StreamWorld.step]
    split_ifs with inside
    · exact delivers.attach inside start
    · exact delivers
  | read reader => exact delivers.read bounded reader

/-- What a session accepted stays accepted. -/
theorem accepted_step (world : StreamWorld) (event : StreamEvent) {accepted : Bytes} (member : accepted ∈ world.accepted) :
    ∃ longer ∈ (world.step event).accepted, accepted <+: longer := by
  cases event with
  | append handle chunk =>
    rw [StreamWorld.step, StreamWorld.appended]
    split
    · exact ⟨accepted, member, List.prefix_rfl⟩
    · dsimp only
      split
      · obtain ⟨place, found⟩ := List.mem_iff_getElem?.mp member
        rcases eq_or_ne handle place with rfl | different
        · refine ⟨accepted ++ chunk, List.mem_of_getElem? (i := handle) ?_, List.prefix_append _ _⟩
          rw [List.getElem?_modify_eq, found]
          rfl
        · refine ⟨accepted, List.mem_of_getElem? (i := place) ?_, List.prefix_rfl⟩
          rw [List.getElem?_modify_ne _ _ different, found]
      · exact ⟨accepted, member, List.prefix_rfl⟩
  | createOrReplace id now | insert id now => exact ⟨accepted, List.mem_append_left _ member, List.prefix_rfl⟩
  | attach handle start =>
    rw [StreamWorld.step]
    split <;> exact ⟨accepted, member, List.prefix_rfl⟩
  | finish handle now | cancel handle now | evictAndCancel id now | gc now | read reader =>
    exact ⟨accepted, member, List.prefix_rfl⟩

/-- In a run in which every session accepts less than 2^64 bytes, each buffer is the end of what was accepted and each
reader holds what was accepted from its start on. -/
theorem run_delivers (events : List StreamEvent)
    (bounded : ∀ accepted ∈ (initial.run events).accepted, accepted.length < usizeBound) :
    (initial.run events).Delivers := by
  induction events using List.reverseRecOn with
  | nil => exact initial_delivers
  | append_singleton events event ih =>
    have last : initial.run (events ++ [event]) = (initial.run events).step event := List.foldl_concat ..
    rw [last] at bounded ⊢
    refine (ih fun accepted member => ?_).step event bounded
    obtain ⟨longer, kept, grown⟩ := accepted_step (initial.run events) event member
    exact grown.length_le.trans_lt (bounded longer kept)

theorem run_delivers_two_chunks :
    (∀ accepted ∈ (initial.run [.insert "chat" 5, .attach 0 1, .append 0 [1, 2], .read 0]).accepted,
      accepted.length < usizeBound) ∧
      (initial.run [.insert "chat" 5, .attach 0 1, .append 0 [1, 2], .read 0]).Delivers :=
  ⟨by decide, run_delivers _ (by decide)⟩

section Saturated

variable {first second : ℕ}

/-- Two chunks that fill the counter but for one byte, and two bytes more. -/
def saturating (first second : ℕ) : List StreamEvent :=
  [.insert "chat" 5, .append 0 (List.replicate first 0), .append 0 (List.replicate second 0), .append 0 [0, 0]]

theorem append_replicate {inner : Inner} {count : ℕ} (ongoing : inner.done = false) (clear : inner.cancelled = false)
    (large : maxStreamBytes ≤ count) : inner.append (List.replicate count 0) = (true, { inner with
      total := saturatingAdd inner.total count
      dropped := saturatingAdd inner.total count - maxStreamBytes
      bytes := List.replicate maxStreamBytes 0 }) := by
  have positive : 0 < maxStreamBytes := by decide
  have nonempty : (List.replicate count (0 : UInt8)).isEmpty = false := by
    rw [List.isEmpty_eq_false_iff]
    intro empty
    have length := congrArg List.length empty
    rw [List.length_replicate, List.length_nil] at length
    omega
  rw [Inner.append, nonempty, ongoing, clear, if_neg (by decide), if_neg (by decide), List.length_replicate]
  dsimp only
  rw [if_pos large, List.drop_replicate, Nat.sub_sub_self large]

theorem arena_appended {world : StreamWorld} {session : StreamSession} (alone : world.manager.arena = [session])
    (chunk : Bytes) : (world.appended 0 chunk).manager.arena =
    [{ session with inner := (session.inner.append chunk).2 }] := by
  rw [StreamWorld.appended, alone, List.getElem?_cons_zero]
  dsimp only [StreamManager.modify]
  rw [alone, List.modify_zero_cons]

theorem append_saturated {inner : Inner} (ongoing : inner.done = false) (clear : inner.cancelled = false)
    (total : inner.total = usizeBound - 2) (dropped : inner.dropped = usizeBound - 2 - maxStreamBytes)
    (full : inner.bytes.length = maxStreamBytes) : (inner.append [0, 0]).2.total = usizeBound - 1 ∧
      (inner.append [0, 0]).2.dropped + (inner.append [0, 0]).2.bytes.length = usizeBound := by
  have small : ¬maxStreamBytes ≤ [(0 : UInt8), 0].length := by decide
  have bounds : 2 < maxStreamBytes ∧ maxStreamBytes + 2 < usizeBound := by decide
  have room : saturatingAdd inner.bytes.length [(0 : UInt8), 0].length - maxStreamBytes = 2 := by
    rw [saturatingAdd, full, List.length_cons, List.length_singleton]
    lia
  rw [Inner.append, List.isEmpty_cons, ongoing, clear, if_neg Bool.false_ne_true, if_neg (by decide)]
  dsimp only
  rw [if_neg small, room]
  dsimp only
  rw [List.length_append, List.length_drop, full, saturatingAdd, saturatingAdd, total, dropped, List.length_cons,
    List.length_singleton]
  lia

/-- The counter stays at its last value while the offset of the buffer moves on. -/
theorem total_of_saturating (large : maxStreamBytes ≤ first) (large' : maxStreamBytes ≤ second)
    (full : first + second = usizeBound - 2) : ∃ session,
    (initial.run (saturating first second)).manager.arena[0]? = some session ∧
      session.inner.total = usizeBound - 1 ∧ session.inner.dropped + session.inner.bytes.length = usizeBound := by
  have bounds : 2 < maxStreamBytes ∧ maxStreamBytes + 2 < usizeBound := by decide
  have one := @arena_appended (initial.step (.insert "chat" 5)) ⟨"chat", 5, .fresh⟩ rfl
    (List.replicate first 0)
  rw [append_replicate rfl rfl large] at one
  have two := arena_appended one (List.replicate second 0)
  rw [append_replicate rfl rfl large'] at two
  have sum : saturatingAdd (saturatingAdd Inner.fresh.total first) second = usizeBound - 2 := by
    rw [saturatingAdd, saturatingAdd, Inner.fresh]
    dsimp only
    lia
  refine ⟨_, congrArg (·[0]?) (arena_appended two [0, 0]), ?_⟩
  refine append_saturated rfl rfl ?_ ?_ ?_
  · exact sum
  · exact congrArg (· - maxStreamBytes) sum
  · exact List.length_replicate

/-- A counter that has reached the end of its range no longer says where the buffer ends. -/
theorem saturating_diverges : ∃ session,
    (initial.run (saturating (2 ^ 63 - 1) (2 ^ 63 - 1))).manager.arena[0]? = some session ∧
      session.inner.total ≠ session.inner.dropped + session.inner.bytes.length := by
  obtain ⟨session, found, total, reach⟩ := @total_of_saturating (2 ^ 63 - 1) (2 ^ 63 - 1) (by decide)
    (by decide) (by decide)
  refine ⟨session, found, ?_⟩
  rw [total, reach]
  decide

end Saturated

end StreamWorld

end Muser.Server
