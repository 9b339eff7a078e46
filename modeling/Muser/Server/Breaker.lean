import Muser.Lib.Runs

/-! # The remote-prefill breaker

After a run of failures the remote route is closed for a cool-down; on expiry one half-open probe is
admitted. The probe flag is set when a request selects its route and cleared by the two recording
functions, whose atomic operations interleave with those of other requests.
-/

namespace Muser.Server

structure Breaker where
  remoteConsecutiveFailures : UInt64
  remoteCooldownUntil : Option ℕ
  remoteProbeInFlight : Bool
deriving DecidableEq

def remoteBreakerFailures : UInt64 := 3

/-- Thirty seconds, in nanoseconds. -/
def remoteBreakerCooldown : ℕ := 30000000000

def remoteProducerBusy : String := "remote producer is busy with another prefill"

inductive RemotePrefillMode where
  | auto
  | required
deriving DecidableEq

namespace Breaker

def new : Breaker := ⟨0, none, false⟩

/-- Runs under the lock of the cool-down, with one operation on the flag. -/
def remoteRouteIsOpen (breaker : Breaker) (now : ℕ) : Bool × Breaker :=
  match breaker.remoteCooldownUntil with
  | some deadline =>
    if now < deadline then (false, breaker)
    else (!breaker.remoteProbeInFlight, { breaker with remoteCooldownUntil := none, remoteProbeInFlight := true })
  | none => (!breaker.remoteProbeInFlight, breaker)

/-- The route that a request may use. -/
def selectedRemoteRoute (remote : Option RemotePrefillMode) (breaker : Breaker) (now : ℕ) : Bool × Breaker :=
  match remote with
  | none => (false, breaker)
  | some .required => (true, breaker)
  | some .auto => breaker.remoteRouteIsOpen now

end Breaker

/-- What a recording function does next; each is one atomic operation or one locked section. -/
inductive Recording where
  | countFailure
  | openBreaker
  | releaseProbe
  | rearm
  | resetFailures
  | clearProbe
  | closeBreaker
deriving DecidableEq

/-- `record_remote_failure` ends at once for a busy producer. -/
def recordRemoteFailure (error : String) : Option Recording :=
  if error = remoteProducerBusy then none else some .countFailure

def recordRemoteTransfer : Option Recording := some .resetFailures

namespace Recording

/-- One operation on the breaker, and what follows it. -/
def act (recording : Recording) (breaker : Breaker) (now : ℕ) : Breaker × Option Recording :=
  match recording with
  | .countFailure =>
    ({ breaker with remoteConsecutiveFailures := breaker.remoteConsecutiveFailures + 1 },
      some (if remoteBreakerFailures ≤ breaker.remoteConsecutiveFailures + 1 then .openBreaker else .releaseProbe))
  | .openBreaker => ({ breaker with remoteCooldownUntil := some (now + remoteBreakerCooldown) }, some .releaseProbe)
  | .releaseProbe =>
    ({ breaker with remoteProbeInFlight := false }, if breaker.remoteProbeInFlight then some .rearm else none)
  | .rearm => ({ breaker with remoteCooldownUntil := some (now + remoteBreakerCooldown) }, none)
  | .resetFailures => ({ breaker with remoteConsecutiveFailures := 0 }, some .clearProbe)
  | .clearProbe => ({ breaker with remoteProbeInFlight := false }, some .closeBreaker)
  | .closeBreaker => ({ breaker with remoteCooldownUntil := none }, none)

/-- The two operations that lower the probe flag. -/
def lowers : Recording → Bool
  | .releaseProbe | .clearProbe => true
  | _ => false

end Recording

/-- Where a request stands. `probe` says that it was admitted as the probe and has not resolved it. -/
inductive Phase where
  | waiting
  | skipped
  | admitted (probe : Bool)
  | recording (probe : Bool) (next : Recording)
  | ended
deriving DecidableEq

namespace Phase

def probing : Phase → Bool
  | .admitted probe => probe
  | .recording probe _ => probe
  | _ => false

/-- A request with a route, and what its recording does next. -/
def onward (probe : Bool) : Option Recording → Phase
  | some next => .recording probe next
  | none => .admitted probe

theorem onward_probing (probe : Bool) (next : Option Recording) : (onward probe next).probing = probe := by
  cases next <;> rfl

/-- Whether the request holds a remote route. -/
def routed : Phase → Bool
  | .admitted _ => true
  | .recording _ _ => true
  | _ => false

end Phase

/-- The ends of a request that record nothing with the breaker. -/
inductive Exit where
  | servedLocally
  | rejected
  | cancelled
  | tooDeep
  | producerBusy
  | generated
deriving DecidableEq

inductive Event where
  | tick (later : ℕ)
  | select (request : ℕ)
  | receive (request : ℕ) (outcome : Except String Unit)
  | advance (request : ℕ)
  | finish (request : ℕ) (exit : Exit)

structure World where
  breaker : Breaker
  now : ℕ
  phase : ℕ → Phase

namespace World

def initial (now : ℕ) : World := ⟨.new, now, fun _ => .waiting⟩

def put (world : World) (request : ℕ) (phase : Phase) : World :=
  { world with phase := fun other => if other = request then phase else world.phase other }

@[simp] theorem put_same (world : World) (request : ℕ) (phase : Phase) : (world.put request phase).phase request = phase :=
  if_pos rfl

@[simp] theorem put_breaker (world : World) (request : ℕ) (phase : Phase) :
    (world.put request phase).breaker = world.breaker := rfl

theorem put_other (world : World) {request other : ℕ} (phase : Phase) (differ : other ≠ request) :
    (world.put request phase).phase other = world.phase other := if_neg differ

/-- The recording that the outcome of a receive starts. -/
def recordOf : Except String Unit → Option Recording
  | .error error => recordRemoteFailure error
  | .ok _ => recordRemoteTransfer

/-- A request is the probe when its selection raised the flag. -/
def becomesProbe (remote : Option RemotePrefillMode) (breaker : Breaker) (now : ℕ) : Bool :=
  !breaker.remoteProbeInFlight && (breaker.selectedRemoteRoute remote now).2.remoteProbeInFlight

/-- One step of one request, or of the clock. -/
def step (remote : Option RemotePrefillMode) (world : World) : Event → Option World
  | .tick later => some { world with now := world.now + later }
  | .select request =>
    match world.phase request with
    | .waiting =>
      let selected := world.breaker.selectedRemoteRoute remote world.now
      let phase := if selected.1 then .admitted (becomesProbe remote world.breaker world.now) else .skipped
      some ({ world with breaker := selected.2 }.put request phase)
    | _ => none
  | .receive request outcome =>
    match world.phase request with
    | .admitted probe => some (world.put request (.onward probe (recordOf outcome)))
    | _ => none
  | .advance request =>
    match world.phase request with
    | .recording probe recording =>
      let acted := recording.act world.breaker world.now
      let still := probe && !recording.lowers
      some ({ world with breaker := acted.1 }.put request (.onward still acted.2))
    | _ => none
  | .finish request _ =>
    match world.phase request with
    | .waiting | .skipped | .admitted _ => some (world.put request .ended)
    | _ => none

end World

end Muser.Server
