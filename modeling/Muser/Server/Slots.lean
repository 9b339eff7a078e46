import Muser.Lib.Lending

/-! # The slot pool

Bounded admission for the resident sessions. Callers move between the locked sections of their operations, in
any order; a blocked caller may wake at any time. A call returns at the locked section that decides its answer.
-/

namespace Muser.Server

def maxQueuedRequests : ℕ := 64

def slotSnapshotSchema : String := "muser.slot-snapshot.v1"

/-- A session, with the slot it was made for. -/
structure Session (Content : Type) where
  born : ℕ
  content : Content
deriving DecidableEq

inductive SlotAcquireError where
  | overloaded
  | unhealthy
deriving DecidableEq

structure SlotSnapshot (Cache Logits : Type) where
  schema : String
  target : Cache
  logits : Logits
deriving DecidableEq

/-- What the engine does with the content of a session. -/
structure SessionEngine (Content Cache Logits : Type) where
  reset : Content → Content
  exportCacheSnapshot : Content → Except String Cache
  cachedLogits : Content → Option Logits
  installCacheSnapshot : Cache → Content → Except String Unit × Content
  installRestoredLogits : Logits → Content → Except String Unit × Content

structure SlotPoolState (Content : Type) where
  sessions : List (Option (Session Content))
  available : List ℕ
  waiting : ℕ
deriving DecidableEq

/-- The state and its lock, and the latch beside them. -/
structure SlotPool (Content : Type) where
  state : SlotPoolState Content
  poisoned : Bool
  unhealthy : Bool
deriving DecidableEq

/-- What a call answers when it does not hand out a permit. -/
inductive Answer (Cache Logits : Type) where
  | acquire (error : SlotAcquireError)
  | erase (result : Except SlotAcquireError Unit)
  | snapshot (result : Except String (SlotSnapshot Cache Logits))
  | restore (result : Except String Unit)
  | dropped
  | panicked

inductive Wanted where
  | any
  | specific (requested : ℕ)
deriving DecidableEq

/-- Where a caller stands between its locked sections. -/
inductive Caller (Content Cache Logits : Type) where
  | idle
  | entered (wanted : Wanted) (deadline : ℕ)
  | blocked (slot : Option ℕ) (deadline : ℕ)
  | holding (index : ℕ) (session : Option (Session Content))
  | erasing (index : ℕ) (session : Session Content)
  | snapshotting (index : ℕ)
  | entering (index : ℕ) (snapshot : SlotSnapshot Cache Logits)
  | restoring (index : ℕ) (session : Session Content) (snapshot : SlotSnapshot Cache Logits)
  | ended (answer : Answer Cache Logits)

variable {Content Cache Logits : Type}

namespace SlotPoolState

/-- The end of the list for any slot, or the wanted one; with the list that is left. -/
def claim (state : SlotPoolState Content) : Option ℕ → Option (ℕ × List ℕ)
  | none => state.available.getLast?.map fun index => (index, state.available.dropLast)
  | some index =>
    (state.available.findIdx? (· == index)).map fun position => (index, swapRemove state.available position)

def leave (state : SlotPoolState Content) : SlotPoolState Content := { state with waiting := state.waiting - 1 }

def enter (state : SlotPoolState Content) : SlotPoolState Content := { state with waiting := state.waiting + 1 }

def put (state : SlotPoolState Content) (index : ℕ) (session : Option (Session Content)) : SlotPoolState Content :=
  { state with sessions := state.sessions.set index session }

end SlotPoolState

namespace SlotPool

def new (contents : List Content) : SlotPool Content where
  state :=
    { sessions := contents.mapIdx fun index content => some ⟨index, content⟩
      available := (List.range contents.length).reverse
      waiting := 0 }
  poisoned := false
  unhealthy := false

def latchUnhealthy (pool : SlotPool Content) : SlotPool Content := { pool with unhealthy := true }

def withState (pool : SlotPool Content) (state : SlotPoolState Content) : SlotPool Content := { pool with state := state }

/-- The session of a claimed slot leaves the pool. An index outside the list panics under the lock. -/
def handOut (pool : SlotPool Content) (index : ℕ) (available : List ℕ) : SlotPool Content × Caller Content Cache Logits :=
  let state := { pool.state with available := available }
  match state.sessions[index]? with
  | some (some session) => (pool.withState (state.put index none), .holding index (some session))
  | some none => ((pool.withState state).latchUnhealthy, .ended (.acquire .unhealthy))
  | none => ({ pool.withState state with poisoned := true }, .ended .panicked)

/-- The loop of a waiting caller, up to its wait. -/
def await (pool : SlotPool Content) (slot : Option ℕ) (deadline now : ℕ) :
    SlotPool Content × Caller Content Cache Logits :=
  if pool.unhealthy then (pool.withState pool.state.leave, .ended (.acquire .unhealthy))
  else if deadline ≤ now then (pool.withState pool.state.leave, .ended (.acquire .overloaded))
  else (pool, .blocked slot deadline)

def claimOrWait (pool : SlotPool Content) (slot : Option ℕ) (deadline now : ℕ) :
    SlotPool Content × Caller Content Cache Logits :=
  match pool.state.claim slot with
  | some (index, available) => pool.handOut index available
  | none =>
    if maxQueuedRequests ≤ pool.state.waiting then (pool, .ended (.acquire .overloaded))
    else (pool.withState pool.state.enter).await slot deadline now

/-- The first locked section of the two acquisitions. -/
def acquire (pool : SlotPool Content) (wanted : Wanted) (deadline now : ℕ) :
    SlotPool Content × Caller Content Cache Logits :=
  if pool.poisoned then (pool.latchUnhealthy, .ended (.acquire .unhealthy))
  else
    match wanted with
    | .any => pool.claimOrWait none deadline now
    | .specific requested =>
      if pool.state.sessions.isEmpty then (pool.latchUnhealthy, .ended (.acquire .unhealthy))
      else pool.claimOrWait (some (requested % pool.state.sessions.length)) deadline now

/-- What a caller does with the lock after its wait. -/
def wake (pool : SlotPool Content) (slot : Option ℕ) (deadline now : ℕ) (timedOut : Bool) :
    SlotPool Content × Caller Content Cache Logits :=
  if pool.poisoned then (pool.latchUnhealthy, .ended (.acquire .unhealthy))
  else
    match pool.state.claim slot with
    | some (index, available) => (pool.withState pool.state.leave).handOut index available
    | none =>
      if timedOut then (pool.withState pool.state.leave, .ended (.acquire .overloaded))
      else pool.await slot deadline now

/-- `Drop` of a permit. -/
def release (pool : SlotPool Content) (index : ℕ) (session : Option (Session Content)) (panicking : Bool) :
    SlotPool Content :=
  if panicking then pool.latchUnhealthy
  else if pool.poisoned then pool.latchUnhealthy
  else
    match session with
    | none => pool.latchUnhealthy
    | some session =>
      match pool.state.sessions[index]? with
      | some (some _) => (pool.withState (pool.state.put index (some session))).latchUnhealthy
      | some none =>
        pool.withState { pool.state.put index (some session) with available := pool.state.available ++ [index] }
      | none => { pool with poisoned := true }

def eraseTake (pool : SlotPool Content) (index : ℕ) : SlotPool Content × Caller Content Cache Logits :=
  if pool.poisoned then (pool.latchUnhealthy, .ended (.erase (.error .unhealthy)))
  else if pool.state.sessions.length ≤ index then (pool, .ended (.erase (.error .overloaded)))
  else
    match pool.state.claim (some index) with
    | none => (pool, .ended (.erase (.error .overloaded)))
    | some (_, available) =>
      let state := { pool.state with available := available }
      match state.sessions[index]? with
      | some (some session) => (pool.withState (state.put index none), .erasing index session)
      | _ => (pool.withState state, .ended (.erase (.error .unhealthy)))

def eraseReturn (engine : SessionEngine Content Cache Logits) (pool : SlotPool Content) (index : ℕ)
    (session : Session Content) : SlotPool Content × Caller Content Cache Logits :=
  if pool.poisoned then (pool.latchUnhealthy, .ended (.erase (.error .unhealthy)))
  else
    let reset := { session with content := engine.reset session.content }
    (pool.withState { pool.state.put index (some reset) with available := pool.state.available ++ [index] },
      .ended (.erase (.ok ())))

/-- The locked section of `snapshot_idle`; a panic of the export poisons the lock. -/
def snapshotIdle (engine : SessionEngine Content Cache Logits) (pool : SlotPool Content) (index : ℕ) (panics : Bool) :
    SlotPool Content × Caller Content Cache Logits :=
  if pool.poisoned then
    (pool.latchUnhealthy, .ended (.snapshot (.error "accelerator slot registry is poisoned")))
  else if pool.state.sessions.length ≤ index then
    (pool, .ended (.snapshot (.error s!"slot {index} does not exist")))
  else if !pool.state.available.contains index then (pool, .ended (.snapshot (.error s!"slot {index} is busy")))
  else
    match pool.state.sessions[index]? with
    | some (some session) =>
      if panics then ({ pool with poisoned := true }, .ended .panicked)
      else
        (pool, .ended (.snapshot (
          match engine.exportCacheSnapshot session.content with
          | .error error => .error s!"slot {index} has no saveable cache: {error}"
          | .ok target =>
            match engine.cachedLogits session.content with
            | none => .error s!"slot {index} has no final target distribution"
            | some logits => .ok ⟨slotSnapshotSchema, target, logits⟩)))
    | _ => (pool, .ended (.snapshot (.error s!"slot {index} has no resident session")))

def restoreTake (pool : SlotPool Content) (index : ℕ) (snapshot : SlotSnapshot Cache Logits) :
    SlotPool Content × Caller Content Cache Logits :=
  if pool.poisoned then (pool.latchUnhealthy, .ended (.restore (.error "accelerator slot registry is poisoned")))
  else if pool.state.sessions.length ≤ index then
    (pool, .ended (.restore (.error s!"slot {index} does not exist")))
  else
    match pool.state.claim (some index) with
    | none => (pool, .ended (.restore (.error s!"slot {index} is busy")))
    | some (_, available) =>
      let state := { pool.state with available := available }
      match state.sessions[index]? with
      | some (some session) => (pool.withState (state.put index none), .restoring index session snapshot)
      | _ => (pool.withState state, .ended (.restore (.error s!"slot {index} has no resident session")))

/-- The session after the restore, and what the restore says. -/
def restored (engine : SessionEngine Content Cache Logits) (session : Session Content)
    (snapshot : SlotSnapshot Cache Logits) : Except String Unit × Session Content :=
  let installed :=
    match engine.installCacheSnapshot snapshot.target session.content with
    | (.ok _, content) => engine.installRestoredLogits snapshot.logits content
    | failed => failed
  match installed with
  | (.ok result, content) => (.ok result, { session with content := content })
  | (.error error, content) => (.error error, { session with content := engine.reset content })

def restoreReturn (engine : SessionEngine Content Cache Logits) (pool : SlotPool Content) (index : ℕ)
    (session : Session Content) (snapshot : SlotSnapshot Cache Logits) :
    SlotPool Content × Caller Content Cache Logits :=
  let installed := restored engine session snapshot
  if pool.poisoned then (pool.latchUnhealthy, .ended (.restore (.error "accelerator slot registry is poisoned")))
  else
    let state := pool.state.put index (some installed.2)
    match pool.state.sessions[index]? with
    | some (some _) =>
      ((pool.withState state).latchUnhealthy, .ended (.restore (.error "slot ownership changed during restore")))
    | some none =>
      (pool.withState { state with available := pool.state.available ++ [index] },
        .ended (.restore (installed.1.mapError fun error => s!"slot snapshot is incompatible: {error}")))
    | none => ({ pool with poisoned := true }, .ended .panicked)

end SlotPool

inductive SlotEvent (Content Cache Logits : Type) where
  | latch
  | acquire (caller : ℕ) (wanted : Wanted) (timeout now : ℕ)
  | lock (caller now : ℕ)
  | wake (caller now : ℕ) (timedOut : Bool)
  | use (caller : ℕ) (content : Content)
  | drop (caller : ℕ) (panicking : Bool)
  | erase (caller index : ℕ)
  | eraseReturn (caller : ℕ)
  | snapshot (caller index : ℕ)
  | read (caller : ℕ) (panics : Bool)
  | restore (caller index : ℕ) (snapshot : SlotSnapshot Cache Logits)
  | take (caller : ℕ)
  | restoreReturn (caller : ℕ)

structure Admission (Content Cache Logits : Type) where
  pool : SlotPool Content
  caller : ℕ → Caller Content Cache Logits

namespace Admission

def initial (contents : List Content) : Admission Content Cache Logits := ⟨.new contents, fun _ => .idle⟩

/-- A locked section, or a test outside it, has run for this caller. -/
def moved (admission : Admission Content Cache Logits) (who : ℕ)
    (next : SlotPool Content × Caller Content Cache Logits) : Admission Content Cache Logits :=
  ⟨next.1, Function.update admission.caller who next.2⟩

/-- One locked section of one caller, or one test it makes before. -/
def step (engine : SessionEngine Content Cache Logits) (admission : Admission Content Cache Logits) :
    SlotEvent Content Cache Logits → Option (Admission Content Cache Logits)
  | .latch => some { admission with pool := admission.pool.latchUnhealthy }
  | .acquire who wanted timeout now =>
    match admission.caller who with
    | .idle => some (admission.moved who (admission.pool,
        if admission.pool.unhealthy then .ended (.acquire .unhealthy) else .entered wanted (now + timeout)))
    | _ => none
  | .lock who now =>
    match admission.caller who with
    | .entered wanted deadline => some (admission.moved who (admission.pool.acquire wanted deadline now))
    | _ => none
  | .wake who now timedOut =>
    match admission.caller who with
    | .blocked slot deadline => some (admission.moved who (admission.pool.wake slot deadline now timedOut))
    | _ => none
  | .use who content =>
    match admission.caller who with
    | .holding index (some session) =>
      some (admission.moved who (admission.pool, .holding index (some { session with content := content })))
    | _ => none
  | .drop who panicking =>
    match admission.caller who with
    | .holding index session =>
      some (admission.moved who (admission.pool.release index session panicking, .ended .dropped))
    | _ => none
  | .erase who index =>
    match admission.caller who with
    | .idle => some (admission.moved who (admission.pool.eraseTake index))
    | _ => none
  | .eraseReturn who =>
    match admission.caller who with
    | .erasing index session => some (admission.moved who (admission.pool.eraseReturn engine index session))
    | _ => none
  | .snapshot who index =>
    match admission.caller who with
    | .idle => some (admission.moved who (admission.pool,
        if admission.pool.unhealthy then .ended (.snapshot (.error "accelerator state is unhealthy"))
        else .snapshotting index))
    | _ => none
  | .read who panics =>
    match admission.caller who with
    | .snapshotting index => some (admission.moved who (admission.pool.snapshotIdle engine index panics))
    | _ => none
  | .restore who index snapshot =>
    match admission.caller who with
    | .idle => some (admission.moved who (admission.pool,
        if snapshot.schema ≠ slotSnapshotSchema then .ended (.restore (.error "slot snapshot schema is not supported"))
        else if admission.pool.unhealthy then .ended (.restore (.error "accelerator state is unhealthy"))
        else .entering index snapshot))
    | _ => none
  | .take who =>
    match admission.caller who with
    | .entering index snapshot => some (admission.moved who (admission.pool.restoreTake index snapshot))
    | _ => none
  | .restoreReturn who =>
    match admission.caller who with
    | .restoring index session snapshot =>
      some (admission.moved who (admission.pool.restoreReturn engine index session snapshot))
    | _ => none

end Admission

end Muser.Server
