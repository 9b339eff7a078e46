import Muser.AuthoritativeVerifier.Digests
import Muser.AuthoritativeVerifier.Restore

/-! # Histories of journal calls

A history is a list of events on one world: a journal call with any arguments and any file faults,
or a drop of the journal followed by a successful `open`. Every state that a process can observe is
the state after some history of a created journal.
-/

namespace Muser.Verifier

variable {p : Primitives}

/-- One call of a journal operation, with the fence and the renderer it meets. -/
inductive Call (p : Primitives) where
  | reserve (request : AuthenticatedRoundV2) (fence : AuthorityFenceV2) (nowUnixMs : UInt64)
  | recordPrepared (request : AuthenticatedRoundV2) (result : AuthenticatedResultV2) (fence : AuthorityFenceV2)
      (nowUnixMs : UInt64)
  | stageResult (request : AuthenticatedRoundV2) (closure : VerifiedClosureV2 p) (renderer : VerifierRendererV2 p)
      (nowUnixMs : UInt64)
  | commitAndActivate (request : AuthenticatedRoundV2) (fence : AuthorityFenceV2) (renderer : VerifierRendererV2 p)
      (nowUnixMs : UInt64)
  | recoverPending (renderer : VerifierRendererV2 p) (nowUnixMs : UInt64)
  | acknowledge (requestId appliedHeadSha256 : String) (nowUnixMs : UInt64)
  | garbageCollect (requestId : String) (nowUnixMs retryRetentionMs : UInt64)

namespace Call

/-- The world after a call, whether it answers or fails. -/
def exec (faults : FileOp → Fault) (world : World) : Call p → World
  | .reserve request fence nowUnixMs => (Verifier.reserve p faults request fence nowUnixMs world).2
  | .recordPrepared request result fence nowUnixMs =>
    (Verifier.recordPrepared p faults request result fence nowUnixMs world).2
  | .stageResult request closure renderer nowUnixMs =>
    (Verifier.stageResult p faults request closure renderer nowUnixMs world).2
  | .commitAndActivate request fence renderer nowUnixMs =>
    (Verifier.commitAndActivate p faults request fence renderer nowUnixMs world).2
  | .recoverPending renderer nowUnixMs => (Verifier.recoverPending p faults renderer nowUnixMs world).2
  | .acknowledge requestId appliedHeadSha256 nowUnixMs =>
    (Verifier.acknowledge p faults requestId appliedHeadSha256 nowUnixMs world).2
  | .garbageCollect requestId nowUnixMs retryRetentionMs =>
    (Verifier.garbageCollect p faults requestId nowUnixMs retryRetentionMs world).2

/-- The round a call asks to reserve. -/
def reserved : Call p → List AuthenticatedRoundV2
  | .reserve request _ _ => [request]
  | _ => []

/-- The round a call presents to be staged or committed. -/
def presented : Call p → List AuthenticatedRoundV2
  | .stageResult request _ _ _ | .commitAndActivate request _ _ _ => [request]
  | _ => []

/-- The results a call passes to the journal. -/
def results : Call p → List AuthenticatedResultV2
  | .recordPrepared _ result _ _ => [result]
  | _ => []

end Call

/-- One step of a process, or its restart over the same files. -/
inductive Event (p : Primitives) where
  | call (operation : Call p) (faults : FileOp → Fault)
  | reopen (expectedKeyId : String) (minimumEpoch : UInt64)

namespace Event

/-- The world after an event; a failing `open` leaves no journal to continue with. -/
def step (world : World) : Event p → Option World
  | .call operation faults => some (operation.exec faults world)
  | .reopen expectedKeyId minimumEpoch =>
    match openJournal p world.disk world.journal.key expectedKeyId minimumEpoch with
    | .ok journal => some { world with journal }
    | .error _ => none

/-- An `open` that goes on has restored a journal. -/
theorem step_reopen {expectedKeyId : String} {minimumEpoch : UInt64} {world after : World}
    (stepped : (reopen expectedKeyId minimumEpoch : Event p).step world = some after) : ∃ journal,
      openJournal p world.disk world.journal.key expectedKeyId minimumEpoch = .ok journal ∧
        after = { world with journal } := by
  simp only [step] at stepped
  split at stepped
  · exact ⟨_, ‹_›, (Option.some.inj stepped).symm⟩
  · cases stepped

def reserved : Event p → List AuthenticatedRoundV2
  | .call operation _ => operation.reserved
  | .reopen _ _ => []

def presented : Event p → List AuthenticatedRoundV2
  | .call operation _ => operation.presented
  | .reopen _ _ => []

def results : Event p → List AuthenticatedResultV2
  | .call operation _ => operation.results
  | .reopen _ _ => []

def isReopen : Event p → Bool
  | .call _ _ => false
  | .reopen _ _ => true

end Event

/-- The world after a history, if every `open` in it succeeds. -/
def run : List (Event p) → World → Option World
  | [], world => some world
  | event :: rest, world => (event.step world).bind (run rest)

/-- The rounds and results that a history passes to the journal. -/
structure Scope where
  reserved : List AuthenticatedRoundV2
  presented : List AuthenticatedRoundV2
  results : List AuthenticatedResultV2

def scopeOf (events : List (Event p)) : Scope :=
  ⟨events.flatMap Event.reserved, events.flatMap Event.presented, events.flatMap Event.results⟩

def Scope.rounds (scope : Scope) : List AuthenticatedRoundV2 := scope.reserved ++ scope.presented

/-- The texts of a scope whose digests the journal relies on: the genesis state, round intents, file
names and head transitions. -/
def Scope.texts (scope : Scope) (session : SessionCoreV2) : List Bytes :=
  canonical session.normalized :: (scope.rounds.map (fun round => canonical round.core) ++
    scope.rounds.map (fun round => utf8 round.core.requestId) ++
    scope.results.map (fun result => canonical result.core.transition))

/-- A property that every event keeps holds after every history. -/
theorem run_invariant {events : List (Event p)} {invariant : World → Prop} {start finish : World}
    (step : ∀ event ∈ events, ∀ world after, invariant world → event.step world = some after → invariant after)
    (initial : invariant start) (ran : run events start = some finish) : invariant finish := by
  induction events generalizing start with
  | nil => exact Option.some.inj ran ▸ initial
  | cons event rest ih =>
    obtain ⟨middle, stepped, ran⟩ := Option.bind_eq_some_iff.mp ran
    exact ih (fun other member => step other (List.mem_cons_of_mem _ member))
      (step event (List.mem_cons_self ..) start middle initial stepped) ran

end Muser.Verifier
