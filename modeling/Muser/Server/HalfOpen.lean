import Muser.Server.Breaker

/-! # The half-open probe

What the flag of the breaker says about the probe, over every interleaving. The flag stays true to the probe
as long as the probe ends only after its outcome was recorded, and no other request records an outcome
meanwhile; a probe that ends in any other way leaves the route closed for good.
-/

namespace Muser.Server

open Relation

namespace World

variable {remote : Option RemotePrefillMode} {world after : World}

/-- The flag is up exactly while one probe is out. -/
structure Sound (world : World) : Prop where
  raised : ∀ request, (world.phase request).probing = true → world.breaker.remoteProbeInFlight = true
  running : world.breaker.remoteProbeInFlight = true → ∃ request, (world.phase request).probing = true
  alone : ∀ request other, (world.phase request).probing = true → (world.phase other).probing = true → request = other

/-- A step that leaves the probe to resolve itself: the probe does not end without a recorded outcome, and
only the probe lowers the flag while it is out. -/
def Orderly (world : World) : Event → Prop
  | .finish request _ => (world.phase request).probing = false
  | .advance request =>
    match world.phase request with
    | .recording probe recording =>
      recording.lowers = true → probe = true ∨ ∀ other, (world.phase other).probing = false
    | _ => True
  | _ => True

def Moves (remote : Option RemotePrefillMode) (world after : World) : Prop :=
  ∃ event, world.Orderly event ∧ world.step remote event = some after

theorem sound_initial (now : ℕ) : (initial now).Sound where
  raised _ probing := by cases probing
  running up := by cases up
  alone _ _ probing := by cases probing

/-- What one request's step must do to the flag. -/
theorem sound_put_iff (sound : world.Sound) (breaker : Breaker) (request : ℕ) (phase : Phase) :
    ({ world with breaker := breaker }.put request phase).Sound ↔
      (breaker.remoteProbeInFlight = true ↔
        phase.probing = true ∨ ∃ other, other ≠ request ∧ (world.phase other).probing = true) ∧
      (phase.probing = true → ∀ other, other ≠ request → (world.phase other).probing = false) := by
  constructor
  · intro after
    have here : (({ world with breaker := breaker }.put request phase).phase request) = phase := put_same ..
    have there : ∀ other, other ≠ request →
        ({ world with breaker := breaker }.put request phase).phase other = world.phase other :=
      fun other differ => put_other _ phase differ
    refine ⟨⟨fun up => ?_, ?_⟩, fun probing other differ => ?_⟩
    · obtain ⟨other, probing⟩ := after.running up
      rcases eq_or_ne other request with rfl | differ
      · exact .inl (here ▸ probing)
      · exact .inr ⟨other, differ, there other differ ▸ probing⟩
    · rintro (probing | ⟨other, differ, probing⟩)
      · exact after.raised request (here.symm ▸ probing)
      · exact after.raised other ((there other differ).symm ▸ probing)
    · by_contra running
      rw [Bool.not_eq_false] at running
      have same : request = other := by
        apply after.alone
        · rw [here]
          exact probing
        · rw [there other differ]
          exact running
      exact differ same.symm
  · rintro ⟨flag, only⟩
    have split : ∀ other, (({ world with breaker := breaker }.put request phase).phase other).probing = true →
        (other = request ∧ phase.probing = true) ∨ (other ≠ request ∧ (world.phase other).probing = true) := by
      intro other probing
      rcases eq_or_ne other request with rfl | differ
      · rw [put_same] at probing
        exact .inl ⟨rfl, probing⟩
      · rw [put_other _ phase differ] at probing
        exact .inr ⟨differ, probing⟩
    refine ⟨fun other probing => ?_, fun up => ?_, fun first second probing probing' => ?_⟩
    · rcases split other probing with ⟨rfl, mine⟩ | ⟨differ, mine⟩
      · exact flag.mpr (.inl mine)
      · exact flag.mpr (.inr ⟨other, differ, mine⟩)
    · rcases flag.mp up with probing | ⟨other, differ, probing⟩
      · refine ⟨request, ?_⟩
        rw [put_same]
        exact probing
      · refine ⟨other, ?_⟩
        rw [put_other _ phase differ]
        exact probing
    · rcases split first probing with ⟨rfl, mine⟩ | ⟨differ, mine⟩ <;>
        rcases split second probing' with ⟨rfl, yours⟩ | ⟨differ', yours⟩
      · rfl
      · rw [only mine second differ'] at yours
        cases yours
      · rw [only yours first differ] at mine
        cases mine
      · exact sound.alone first second mine yours

theorem Sound.flag_iff (sound : world.Sound) (request : ℕ) :
    world.breaker.remoteProbeInFlight = true ↔
      (world.phase request).probing = true ∨ ∃ other, other ≠ request ∧ (world.phase other).probing = true := by
  constructor
  · intro up
    obtain ⟨other, probing⟩ := sound.running up
    rcases eq_or_ne other request with rfl | differ
    · exact .inl probing
    · exact .inr ⟨other, differ, probing⟩
  · rintro (probing | ⟨other, -, probing⟩)
    · exact sound.raised request probing
    · exact sound.raised other probing

theorem Sound.only (sound : world.Sound) {request : ℕ} (probing : (world.phase request).probing = true) (other : ℕ)
    (differ : other ≠ request) : (world.phase other).probing = false := by
  by_contra running
  rw [Bool.not_eq_false] at running
  exact differ (sound.alone other request running probing)

/-- The flag after a selection is up when it was up, or when the request is the probe. -/
theorem selected_flag (remote : Option RemotePrefillMode) (breaker : Breaker) (now : ℕ) :
    (breaker.selectedRemoteRoute remote now).2.remoteProbeInFlight = true ↔
      becomesProbe remote breaker now = true ∨ breaker.remoteProbeInFlight = true := by
  obtain ⟨failures, until_, flag⟩ := breaker
  cases flag
  · simp [becomesProbe]
  · simp only [becomesProbe, Bool.not_true, Bool.false_and, Bool.false_eq_true, false_or, iff_true]
    rcases remote with _ | _ | _
    · rfl
    · cases until_ with
      | none => rfl
      | some deadline =>
        simp only [Breaker.selectedRemoteRoute, Breaker.remoteRouteIsOpen]
        split <;> rfl
    · rfl

variable {breaker : Breaker} {now : ℕ} {event : Event}

/-- The probe holds its route, and the flag was down before it. -/
theorem selected_probe (probe : becomesProbe remote breaker now = true) :
    (breaker.selectedRemoteRoute remote now).1 = true ∧ breaker.remoteProbeInFlight = false := by
  obtain ⟨failures, until_, flag⟩ := breaker
  simp only [becomesProbe, Bool.and_eq_true, Bool.not_eq_true'] at probe
  obtain ⟨down, up⟩ := probe
  subst down
  refine ⟨?_, rfl⟩
  rcases remote with _ | _ | _
  · cases up
  · cases until_ with
    | none => cases up
    | some deadline =>
      simp only [Breaker.selectedRemoteRoute, Breaker.remoteRouteIsOpen] at up ⊢
      split at up
      · cases up
      · rw [if_neg ‹_›]
        rfl
  · cases up

theorem act_flag (recording : Recording) (breaker : Breaker) (now : ℕ) :
    (recording.act breaker now).1.remoteProbeInFlight = (!recording.lowers && breaker.remoteProbeInFlight) := by
  cases recording <;> rfl

/-- One step keeps the flag true to the probe exactly when it lets the probe resolve itself. -/
theorem sound_step_iff (sound : world.Sound) (is : world.step remote event = some after) :
    after.Sound ↔ world.Orderly event := by
  cases event with
  | tick later =>
    cases is
    exact ⟨fun _ => trivial, fun _ => ⟨sound.raised, sound.running, sound.alone⟩⟩
  | select request =>
    simp only [step] at is
    split at is
    · rename_i waiting
      cases is
      refine ⟨fun _ => trivial, fun _ => (sound_put_iff sound ..).mpr ?_⟩
      have mine : (if (world.breaker.selectedRemoteRoute remote world.now).1 then
          Phase.admitted (becomesProbe remote world.breaker world.now) else .skipped).probing =
          becomesProbe remote world.breaker world.now := by
        by_cases probe : becomesProbe remote world.breaker world.now = true
        · rw [if_pos (selected_probe probe).1, Phase.probing]
        · rw [Bool.not_eq_true] at probe
          split <;> simp [Phase.probing, probe]
      rw [mine]
      have before := sound.flag_iff request
      simp only [waiting, Phase.probing, Bool.false_eq_true, false_or] at before
      refine ⟨(selected_flag ..).trans (or_congr_right before), fun probe other differ => ?_⟩
      by_contra running
      rw [Bool.not_eq_false] at running
      have up : world.breaker.remoteProbeInFlight = true := sound.raised other running
      rw [(selected_probe probe).2] at up
      cases up
    · cases is
  | receive request outcome =>
    simp only [step] at is
    split at is
    · rename_i probe admitted
      cases is
      refine ⟨fun _ => trivial, fun _ => (sound_put_iff sound ..).mpr ?_⟩
      have mine : (Phase.onward probe (recordOf outcome)).probing = (world.phase request).probing := by
        rw [Phase.onward_probing, admitted, Phase.probing]
      rw [mine]
      exact ⟨sound.flag_iff request, sound.only⟩
    · cases is
  | advance request =>
    simp only [step] at is
    split at is
    · rename_i probe recording recorded
      cases is
      rw [sound_put_iff sound, Phase.onward_probing, act_flag]
      have before := sound.flag_iff request
      have only := fun probing : (world.phase request).probing = true => sound.only probing
      simp only [recorded, Phase.probing] at before only
      simp only [Orderly, recorded]
      cases lowers : recording.lowers with
      | false => simpa using ⟨before, only⟩
      | true =>
        simp only [Bool.not_true, Bool.false_and, Bool.and_false, Bool.false_eq_true, false_or, false_iff,
          false_implies, and_true, true_implies, not_exists, not_and, Bool.not_eq_true]
        constructor
        · intro none_else
          cases probe with
          | true => exact .inl rfl
          | false =>
            refine .inr fun other => ?_
            rcases eq_or_ne other request with rfl | differ
            · rw [recorded]
              rfl
            · exact none_else other differ
        · rintro (rfl | quiet) other differ
          · exact only rfl other differ
          · exact quiet other
    · cases is
  | finish request exit =>
    have put : (world.put request .ended).Sound ↔ (world.phase request).probing = false := by
      have sounder := sound_put_iff sound world.breaker request .ended
      have unheld : Phase.ended.probing = false := rfl
      refine sounder.trans ?_
      simp only [unheld, Bool.false_eq_true, false_or, false_implies, and_true, sound.flag_iff request]
      constructor
      · intro flag
        by_contra probing
        rw [Bool.not_eq_false] at probing
        obtain ⟨other, differ, running⟩ := flag.mp (.inl probing)
        rw [sound.only probing other differ] at running
        cases running
      · intro quiet
        simp [quiet]
    simp only [step] at is
    split at is <;> first | (cases is; exact put) | cases is

theorem sound_of_run (run : ReflTransGen (Moves remote) (initial now) world) : world.Sound := by
  apply kept_of_run _ run (sound_initial now)
  rintro state after ⟨event, orderly, is⟩ sound
  exact (sound_step_iff sound is).mpr orderly

/-- The selection of a waiting request, whatever the breaker says. -/
theorem step_select {request : ℕ} (waiting : world.phase request = .waiting) :
    ∃ after, world.step remote (.select request) = some after ∧
      (after.phase request).routed = (world.breaker.selectedRemoteRoute remote world.now).1 := by
  simp only [step, waiting]
  refine ⟨_, rfl, ?_⟩
  rw [put_same]
  cases (world.breaker.selectedRemoteRoute remote world.now).1 <;> rfl

theorem selected_of_flag (up : breaker.remoteProbeInFlight = true) (now : ℕ) :
    (breaker.selectedRemoteRoute (some .auto) now).1 = false := by
  simp only [Breaker.selectedRemoteRoute, Breaker.remoteRouteIsOpen]
  split
  · split
    · rfl
    · rw [up]
      rfl
  · rw [up]
    rfl

theorem selected_of_expired {mode : RemotePrefillMode} (down : breaker.remoteProbeInFlight = false)
    (passed : ∀ deadline, breaker.remoteCooldownUntil = some deadline → deadline ≤ now) :
    (breaker.selectedRemoteRoute (some mode) now).1 = true := by
  cases mode with
  | required => rfl
  | auto =>
    simp only [Breaker.selectedRemoteRoute, Breaker.remoteRouteIsOpen]
    split
    · rename_i deadline is
      rw [if_neg (Nat.not_lt.mpr (passed deadline is)), down]
      rfl
    · rw [down]
      rfl

/-- Only the automatic route has probes. -/
def Automatic (remote : Option RemotePrefillMode) (world : World) : Prop :=
  world.breaker.remoteProbeInFlight = true → remote = some .auto

theorem automatic_step (automatic : world.Automatic remote)
    (is : world.step remote event = some after) : after.Automatic remote := by
  cases event with
  | tick later =>
    cases is
    exact automatic
  | select request =>
    simp only [step] at is
    split at is
    · cases is
      intro up
      rcases (selected_flag ..).mp up with probe | up
      · rcases remote with _ | _ | _
        · simp [becomesProbe, Breaker.selectedRemoteRoute] at probe
        · rfl
        · simp [becomesProbe, Breaker.selectedRemoteRoute] at probe
      · exact automatic up
    · cases is
  | receive request outcome =>
    simp only [step] at is
    split at is <;> cases is
    exact automatic
  | advance request =>
    simp only [step] at is
    split at is <;> cases is
    intro up
    rw [put_breaker, act_flag, Bool.and_eq_true] at up
    exact automatic up.2
  | finish request exit =>
    simp only [step] at is
    split at is <;> cases is <;> exact automatic

/-- What the breaker owes its callers, in one state. -/
structure Unwedged (remote : Option RemotePrefillMode) (world : World) : Prop where
  released : (∀ request, (world.phase request).probing = false) → world.breaker.remoteProbeInFlight = false
  exclusive : ∀ probe, (world.phase probe).probing = true → ∀ request after,
    world.step remote (.select request) = some after → (after.phase request).routed = false
  reopens : (∀ request, (world.phase request).probing = false) → remote ≠ none →
    (∀ deadline, world.breaker.remoteCooldownUntil = some deadline → deadline ≤ world.now) →
    ∀ request, world.phase request = .waiting →
      ∃ after, world.step remote (.select request) = some after ∧ (after.phase request).routed = true

theorem Sound.unwedged (sound : world.Sound) (automatic : world.Automatic remote) : world.Unwedged remote := by
  have released : (∀ request, (world.phase request).probing = false) →
      world.breaker.remoteProbeInFlight = false := by
    intro quiet
    by_contra up
    obtain ⟨request, probing⟩ := sound.running (by simpa using up)
    rw [quiet request] at probing
    cases probing
  refine ⟨released, fun probe probing request after is => ?_, fun quiet remoted passed request waiting => ?_⟩
  · have up : world.breaker.remoteProbeInFlight = true := sound.raised probe probing
    have waiting : world.phase request = .waiting := by
      simp only [step] at is
      split at is
      · assumption
      · cases is
    obtain ⟨after', is', routed⟩ : ∃ after, world.step remote (Event.select request) = some after ∧ _ := step_select waiting
    rw [is'] at is
    cases is
    rw [routed, automatic up, selected_of_flag up]
  · obtain ⟨after, is, routed⟩ : ∃ after, world.step remote (Event.select request) = some after ∧ _ := step_select waiting
    obtain ⟨mode, rfl⟩ := Option.ne_none_iff_exists'.mp remoted
    exact ⟨after, is, routed.trans (selected_of_expired (released quiet) passed)⟩

/-- An event that is orderly by the looks of the flag and of its own request. -/
def steady (world : World) : Event → Bool
  | .finish request _ => !(world.phase request).probing
  | .advance request => (world.phase request).probing || !world.breaker.remoteProbeInFlight
  | _ => true

theorem Sound.orderly (sound : world.Sound) (is : world.steady event = true) : world.Orderly event := by
  cases event with
  | finish request exit => exact (Bool.not_eq_true' _).mp is
  | advance request =>
    rw [Orderly]
    split
    · next found =>
      rw [steady, found, Bool.or_eq_true, Bool.not_eq_true', Phase.probing] at is
      refine fun _ => is.imp_right fun down other => ?_
      by_contra running
      rw [Bool.not_eq_false] at running
      rw [sound.raised other running] at down
      cases down
    · trivial
  | _ => trivial

/-- Steady events, one after another, are an orderly run. -/
theorem run_of_steady {events : List Event} (run : ReflTransGen (Moves remote) (initial now) world)
    (is : events.foldlM (fun world event => if world.steady event then world.step remote event else none) world =
      some after) :
    ReflTransGen (Moves remote) (initial now) after := by
  induction events generalizing world with
  | nil =>
    cases is
    exact run
  | cons event events ih =>
    rw [List.foldlM_cons] at is
    obtain ⟨next, taken, is⟩ := Option.bind_eq_some_iff.mp is
    obtain ⟨looks, taken⟩ := Option.ite_none_right_eq_some.mp taken
    exact ih (run.tail ⟨event, (sound_of_run run).orderly looks, taken⟩) is

/-- A request whose remote receive fails, and that is then served locally. -/
def failing (request recordings : ℕ) : List Event :=
  [.select request, .receive request (.error "connection refused")] ++
    List.replicate recordings (.advance request) ++ [.finish request .servedLocally]

/-- Three failures open the breaker; the probe after the cool-down finds its prompt in a local tier. -/
def probing : List Event :=
  failing 0 2 ++ failing 1 2 ++ failing 2 3 ++ [.tick remoteBreakerCooldown, .select 3]

/-- The probe gets its cache, after three failures and the cool-down. -/
def resolving : List Event :=
  probing ++ [.receive 3 (.ok ()), .advance 3, .advance 3, .advance 3, .finish 3 .generated]

/-- In a run of orderly steps the breaker is never wedged, and the next step keeps it so exactly when it is
orderly too. -/
theorem unwedged_of_run (now : ℕ) (run : ReflTransGen (Moves remote) (initial now) world) :
    world.Unwedged remote ∧
      ∀ event after, world.step remote event = some after → (after.Sound ↔ world.Orderly event) := by
  have sound : world.Sound := sound_of_run run
  have automatic : world.Automatic remote := by
    apply kept_of_run _ run fun up => nomatch up
    rintro state after ⟨event, -, is⟩ automatic
    exact automatic_step automatic is
  exact ⟨sound.unwedged automatic, fun event after is => sound_step_iff sound is⟩

theorem unwedged_of_run_resolving : ∃ world, resolving.foldlM (step (some .auto)) (initial 0) = some world ∧
    world.breaker = .new ∧ world.Unwedged (some .auto) :=
  ⟨_, rfl, rfl, (unwedged_of_run 0 (@run_of_steady _ _ _ 0 resolving .refl rfl)).1⟩

/-- The flag is up and nobody who could lower it is left. -/
structure Wedged (world : World) : Prop where
  up : world.breaker.remoteProbeInFlight = true
  unrouted : ∀ request, (world.phase request).routed = false

theorem Wedged.put (wedged : world.Wedged) (up : breaker.remoteProbeInFlight = true) (request : ℕ)
    {phase : Phase} (unrouted : phase.routed = false) : ({ world with breaker := breaker }.put request phase).Wedged := by
  refine ⟨up, fun other => ?_⟩
  rcases eq_or_ne other request with rfl | differ
  · rw [put_same]
    exact unrouted
  · rw [put_other _ phase differ]
    exact wedged.unrouted other

/-- No step of any request, and no amount of time, frees a wedged breaker. -/
theorem Wedged.step (wedged : world.Wedged) (is : world.step (some .auto) event = some after) :
    after.Wedged := by
  cases event with
  | tick later =>
    cases is
    exact ⟨wedged.up, wedged.unrouted⟩
  | select request =>
    simp only [World.step] at is
    split at is <;> cases is
    apply wedged.put
    · exact (selected_flag ..).mpr (.inr wedged.up)
    · rw [selected_of_flag wedged.up]
      rfl
  | receive request outcome =>
    have unrouted := wedged.unrouted request
    simp only [World.step] at is
    split at is
    · rename_i admitted
      rw [admitted] at unrouted
      cases unrouted
    · cases is
  | advance request =>
    have unrouted := wedged.unrouted request
    simp only [World.step] at is
    split at is
    · rename_i recorded
      rw [recorded] at unrouted
      cases unrouted
    · cases is
  | finish request exit =>
    simp only [World.step] at is
    split at is <;> cases is <;> exact wedged.put wedged.up request rfl

theorem Wedged.run (wedged : world.Wedged) {events : List Event}
    (is : events.foldlM (World.step (some .auto)) world = some after) : after.Wedged := by
  have moved : ReflTransGen (fun state after => ∃ event, World.step (some .auto) state event = some after) world after :=
    foldlM_run (fun event _ _ _ is => ⟨event, is⟩) is
  exact kept_of_run (fun _ _ ⟨_, is⟩ wedged => wedged.step is) moved wedged

/-- The probe ends without a recorded outcome, and no request is ever admitted again. -/
theorem probe_served_locally_wedges : ∃ before world : World,
    probing.foldlM (World.step (some .auto)) (initial 0) = some before ∧ before.phase 3 = .admitted true ∧
      before.step (some .auto) (.finish 3 .servedLocally) = some world ∧ ¬ world.Unwedged (some .auto) ∧
      ∀ (later : List Event) (after : World), later.foldlM (World.step (some .auto)) world = some after →
        after.breaker.remoteProbeInFlight = true ∧ ∀ request, (after.phase request).routed = false := by
  refine ⟨_, _, rfl, rfl, rfl, ?_, ?_⟩
  · intro unwedged
    have quiet : _ = false := unwedged.released fun
      | 0 => rfl
      | 1 => rfl
      | 2 => rfl
      | 3 => rfl
      | _ + 4 => rfl
    cases quiet
  · intro later after is
    have wedged : after.Wedged := Wedged.run ⟨rfl, fun
      | 0 => rfl
      | 1 => rfl
      | 2 => rfl
      | 3 => rfl
      | _ + 4 => rfl⟩ is
    exact ⟨wedged.up, wedged.unrouted⟩

end World

end Muser.Server
