import Muser.Reply.Sampler

/-! # The prefill of a suffix

The tokens behind a matched prefix are fed in segments, which end where a cut of the cache is to be made durable: at
every multiple of the interval, and at the token before the last. No list of tokens is so long that the checked
arithmetic of an end fails.
-/

namespace Muser.Server

open Reply (ChatError)

/-- `DURABLE_FULL_INTERVAL`. -/
def durableFullInterval : ℕ := 2048

/-- What the engine and the durable cache do: which logits follow a history, and what fails. -/
structure InferenceRuntime (Logits : Type) where
  prefixCacheEnabled : Bool
  hasDurable : Bool
  logitsOf : List ℕ → Logits
  prefillFails : List ℕ → List ℕ → Bool
  save : ℕ → List ℕ → Except String Unit

/-- A session, the health of its slot and the durable generation, with what was fed and published so far. -/
structure Feeding (Logits : Type) where
  tokenHistory : List ℕ
  cachedLogits : Option Logits
  healthy : Bool
  durableGeneration : ℕ
  fed : List (List ℕ)
  published : List (ℕ × List ℕ)

variable {Logits : Type} (runtime : InferenceRuntime Logits)

/-- What a call ends with, and what is left. -/
abbrev Outcome (Logits Value : Type) : Type := Except ChatError Value × Feeding Logits

def publishDurableCut (session : Feeding Logits) : Outcome Logits Unit :=
  if runtime.prefixCacheEnabled = false ∨ session.tokenHistory.length = 0 then (.ok (), session)
  else if runtime.hasDurable then
    let generation := session.durableGeneration
    let session := { session with durableGeneration := generation + 1 }
    match runtime.save generation session.tokenHistory with
    | .error error => (.error (.engine error), session)
    | .ok () => (.ok (), { session with published := session.published ++ [(generation, session.tokenHistory)] })
  else (.ok (), session)

def prefill (session : Feeding Logits) (batch : List ℕ) : Outcome Logits Logits :=
  if runtime.prefillFails session.tokenHistory batch then (.error .unavailable, { session with healthy := false })
  else
    let logits := runtime.logitsOf (session.tokenHistory ++ batch)
    (.ok logits,
      { session with
        tokenHistory := session.tokenHistory ++ batch
        cachedLogits := some logits
        fed := session.fed ++ [batch] })

/-- Where the segment from the cursor ends. -/
def segmentEnd (durable : Bool) (count cursor : ℕ) : ℕ :=
  let nextInterval := (cursor / durableFullInterval + 1) * durableFullInterval
  let stop := min nextInterval count
  let stop := if durable ∧ cursor < count - 1 ∧ count - 1 < stop then count - 1 else stop
  if stop = cursor then count else stop

/-- Whether a cut at the cursor is published. -/
def isCut (count cursor : ℕ) : Bool := decide (cursor = count - 1) || decide (cursor % durableFullInterval = 0)

theorem lt_segmentEnd {durable : Bool} {count cursor : ℕ} (inside : cursor < count) :
    cursor < segmentEnd durable count cursor := by
  have next : cursor < (cursor / durableFullInterval + 1) * durableFullInterval :=
    Nat.lt_mul_of_div_lt (Nat.lt_succ_self _) (by decide)
  simp only [segmentEnd]
  split_ifs <;> omega

def prefillFrom (durable : Bool) (tokens : List ℕ) (cursor : ℕ) (logits : Option Logits) (session : Feeding Logits) :
    Outcome Logits (Option Logits) :=
  if _inside : cursor < tokens.length then
    let stop := segmentEnd durable tokens.length cursor
    match prefill runtime session ((tokens.drop cursor).take (stop - cursor)) with
    | (.error error, session) => (.error error, session)
    | (.ok logits, session) =>
      if durable ∧ stop < tokens.length ∧ isCut tokens.length stop then
        match publishDurableCut runtime session with
        | (.error error, session) => (.error error, session)
        | (.ok (), session) => prefillFrom durable tokens stop (some logits) session
      else prefillFrom durable tokens stop (some logits) session
  else (.ok logits, session)
termination_by tokens.length - cursor
decreasing_by
  all_goals
    have moved := @lt_segmentEnd durable tokens.length cursor _inside
    omega

/-- The suffix of the tokens behind the matched ones, with nothing fed or published yet. -/
def prefillTokenSuffix (session : Feeding Logits) (tokens : List ℕ) (matched : ℕ) : Outcome Logits Logits :=
  if tokens.length ≤ matched then
    match session.cachedLogits with
    | some logits => (.ok logits, session)
    | none => (.error (.engine "exact prefix state omitted final logits"), session)
  else
    let durable := runtime.prefixCacheEnabled && runtime.hasDurable
    let first : Outcome Logits Unit :=
      if durable ∧ 0 < matched ∧ isCut tokens.length matched then publishDurableCut runtime session else (.ok (), session)
    match first with
    | (.error error, session) => (.error error, session)
    | (.ok (), session) =>
      match prefillFrom runtime durable tokens matched none session with
      | (.error error, session) => (.error error, session)
      | (.ok (some logits), session) => (.ok logits, session)
      | (.ok none, session) => (.error (.engine "token suffix produced no logits"), session)

/-! ## What is fed and published -/

/-- Nothing of the engine and the cache fails. An empty batch may. -/
structure Sound : Prop where
  prefills : ∀ held batch, batch ≠ [] → runtime.prefillFails held batch = false
  saves : ∀ generation held, runtime.save generation held = .ok ()

/-- The cuts to be published from a matched prefix on, below a bound. -/
def cutsBelow (count matched bound : ℕ) : List ℕ :=
  (List.range bound).filter fun cut => decide (max matched 1 ≤ cut) && decide (cut < count) && isCut count cut

/-- What holds when the loop is at a cursor. -/
structure Fed (durable : Bool) (tokens : List ℕ) (matched cursor : ℕ) (session : Feeding Logits) : Prop where
  history : session.tokenHistory = tokens.take cursor
  fed : session.fed.flatten = (tokens.take cursor).drop matched
  published : session.published.map Prod.snd = if durable then
    (cutsBelow tokens.length matched (cursor + 1)).map tokens.take else []

section Cuts

variable {count matched : ℕ}

theorem cutsBelow_succ (bound : ℕ) : cutsBelow count matched (bound + 1) = cutsBelow count matched bound ++
    if max matched 1 ≤ bound ∧ bound < count ∧ isCut count bound then [bound] else [] := by
  rw [cutsBelow, List.range_succ, List.filter_append, ← cutsBelow]
  congr 1
  split
  · next is =>
    apply List.filter_eq_self.mpr
    simpa [and_assoc] using is
  · next not_ => simpa [and_assoc] using not_

theorem cutsBelow_succ_of_not {bound : ℕ} (none_ : ¬(max matched 1 ≤ bound ∧ bound < count ∧ isCut count bound)) :
    cutsBelow count matched (bound + 1) = cutsBelow count matched bound := by
  rw [cutsBelow_succ, if_neg none_, List.append_nil]

/-- Between the cursor and the end of its segment there is no cut. -/
theorem not_isCut_of_lt_segmentEnd {cursor cut : ℕ} (inside : cursor < count) (after : cursor < cut)
    (before : cut < segmentEnd true count cursor) :
    isCut count cut = false := by
  have bounds : cut < (cursor / durableFullInterval + 1) * durableFullInterval ∧ cut < count - 1 := by
    have next : cursor < (cursor / durableFullInterval + 1) * durableFullInterval :=
      Nat.lt_mul_of_div_lt (Nat.lt_succ_self _) (by decide)
    simp only [segmentEnd, true_and] at before
    split_ifs at before <;> omega
  rw [isCut, Bool.or_eq_false_iff, decide_eq_false_iff_not, decide_eq_false_iff_not]
  refine ⟨by omega, fun whole => ?_⟩
  obtain ⟨block, rfl⟩ := Nat.dvd_of_mod_eq_zero whole
  have low : cursor / durableFullInterval < block := (Nat.div_lt_iff_lt_mul (by decide)).mpr (by rwa [Nat.mul_comm])
  rw [Nat.mul_comm _ block] at bounds
  have high : block < cursor / durableFullInterval + 1 := Nat.lt_of_mul_lt_mul_right bounds.1
  omega

theorem cutsBelow_segmentEnd {cursor : ℕ} (inside : cursor < count) :
    cutsBelow count matched (segmentEnd true count cursor) = cutsBelow count matched (cursor + 1) := by
  have none_ : ∀ bound, cursor < bound → bound ≤ segmentEnd true count cursor →
      cutsBelow count matched bound = cutsBelow count matched (cursor + 1) := by
    intro bound after
    induction bound, after using Nat.le_induction with
    | base => exact fun _ => rfl
    | succ bound after ih =>
      intro within
      rw [cutsBelow_succ, ih (by omega), not_isCut_of_lt_segmentEnd inside after within]
      simp
  exact none_ _ (lt_segmentEnd inside) (Nat.le_refl _)

end Cuts

section Runs

variable {runtime} {durable : Bool} {tokens : List ℕ} {matched cursor : ℕ} {session out : Feeding Logits}

theorem publishDurableCut_ok (enabled : (runtime.prefixCacheEnabled && runtime.hasDurable) = true)
    (some_ : session.tokenHistory.length ≠ 0)
    (is : publishDurableCut runtime session = (.ok (), out)) :
    out.tokenHistory = session.tokenHistory ∧ out.fed = session.fed ∧
      out.published.map Prod.snd = session.published.map Prod.snd ++ [session.tokenHistory] := by
  rw [Bool.and_eq_true] at enabled
  rw [publishDurableCut, enabled.1, if_neg (by simpa using some_), if_pos enabled.2] at is
  dsimp only at is
  split at is
  · cases is
  · cases is
    exact ⟨rfl, rfl, by rw [List.map_append]; rfl⟩

theorem prefill_ok {batch : List ℕ} {logits : Logits} (is : prefill runtime session batch = (.ok logits, out)) :
    logits = runtime.logitsOf (session.tokenHistory ++ batch) ∧ out.tokenHistory = session.tokenHistory ++ batch ∧
      out.fed = session.fed ++ [batch] ∧ out.published = session.published := by
  rw [prefill] at is
  split at is
  · cases is
  · cases is
    exact ⟨rfl, rfl, rfl, rfl⟩

theorem take_segment {stop : ℕ} (forward : cursor ≤ stop) : tokens.take cursor ++
    (tokens.drop cursor).take (stop - cursor) = tokens.take stop := by
  rw [← List.take_add, Nat.add_sub_cancel' forward]

/-- A cut is published where it is due, and then all cuts up to it are. -/
theorem Fed.of_published {before after : ℕ} (begins : max matched 1 ≤ after)
    (history : session.tokenHistory = tokens.take after) (fed : session.fed.flatten = (tokens.take after).drop matched)
    (published : session.published.map Prod.snd = if durable then
      (cutsBelow tokens.length matched before).map tokens.take else [])
    (none_ : durable = true → cutsBelow tokens.length matched after = cutsBelow tokens.length matched before)
    (enabled : durable = (runtime.prefixCacheEnabled && runtime.hasDurable))
    (is : (if durable ∧ after < tokens.length ∧ isCut tokens.length after then
      publishDurableCut runtime session else (.ok (), session)) =
      (.ok (), out)) : Fed durable tokens matched after out := by
  split at is
  · next due =>
    obtain ⟨rfl, below, cut⟩ := due
    have some_ : session.tokenHistory.length ≠ 0 := by
      rw [history, List.length_take]
      lia
    obtain ⟨same, same', more⟩ := publishDurableCut_ok enabled.symm some_ is
    refine ⟨same.trans history, by rw [same', fed], ?_⟩
    rw [more, published, if_pos rfl, if_pos rfl, cutsBelow_succ, none_ rfl, if_pos ⟨begins, below, cut⟩,
      List.map_append, history]
    rfl
  · next notDue =>
    cases is
    refine ⟨history, fed, published.trans ?_⟩
    cases durable with
    | false => rfl
    | true => rw [if_pos rfl, if_pos rfl, cutsBelow_succ, none_ rfl, if_neg fun is => notDue ⟨rfl, is.2⟩, List.append_nil]

/-- One turn is a prefill and then, where it is due, a publication. -/
theorem prefillFrom_eq (inside : cursor < tokens.length) (logits : Option Logits) :
    prefillFrom runtime durable tokens cursor logits session =
      match prefill runtime session ((tokens.drop cursor).take (segmentEnd durable tokens.length cursor - cursor)) with
      | (.error error, session) => (.error error, session)
      | (.ok logits, session) =>
        match (if durable ∧ segmentEnd durable tokens.length cursor < tokens.length ∧
            isCut tokens.length (segmentEnd durable tokens.length cursor) then
              publishDurableCut runtime session else (.ok (), session)) with
        | (.error error, session) => (.error error, session)
        | (.ok (), session) =>
          prefillFrom runtime durable tokens (segmentEnd durable tokens.length cursor) (some logits) session := by
  rw [prefillFrom, dif_pos inside]
  dsimp only
  split
  · rfl
  · split
    · rfl
    · rfl

theorem segmentEnd_le : segmentEnd durable tokens.length cursor ≤ tokens.length := by
  simp only [segmentEnd]
  split_ifs <;> lia

theorem prefillFrom_ok (enabled : durable = (runtime.prefixCacheEnabled && runtime.hasDurable)) {logits last : Option Logits}
    (begins : matched ≤ cursor) (inside : cursor ≤ tokens.length) (fed : Fed durable tokens matched cursor session)
    (is : prefillFrom runtime durable tokens cursor logits session = (.ok last, out)) :
    Fed durable tokens matched tokens.length out ∧ last = if cursor < tokens.length then
      some (runtime.logitsOf tokens) else logits := by
  induction remaining : tokens.length - cursor using Nat.strong_induction_on generalizing cursor session logits with
  | _ remaining ih =>
    rcases Nat.lt_or_ge cursor tokens.length with more | done
    · rw [prefillFrom_eq more] at is
      have moved := @lt_segmentEnd durable tokens.length cursor more
      have stops := @segmentEnd_le durable tokens cursor
      split at is
      · cases is
      · next result next_ prefilled =>
        obtain ⟨rfl, history, batches, same⟩ := prefill_ok prefilled
        rw [fed.history, take_segment moved.le] at history
        split at is
        · cases is
        · next _ published =>
          have next_ := @Fed.of_published Logits runtime durable tokens matched _ _ (cursor + 1) _ (by omega) history
            (by
              rw [batches, List.flatten_append, fed.fed, List.flatten_singleton, ← take_segment moved.le,
                List.drop_append_of_le_length (by rw [List.length_take]; omega)])
            (by rw [same, fed.published])
            (by
              rintro rfl
              exact cutsBelow_segmentEnd more) enabled published
          obtain ⟨whole, result⟩ := ih _ (by omega) (by omega) stops next_ is rfl
          refine ⟨whole, result.trans ?_⟩
          rw [if_pos more]
          split
          · rfl
          · next end_ =>
            rw [fed.history, take_segment moved.le, List.take_of_length_le (by omega)]
    · rw [prefillFrom, dif_neg (by omega)] at is
      cases is
      rw [show cursor = tokens.length by omega] at fed
      exact ⟨fed, (if_neg (by omega)).symm⟩

theorem Sound.published (sound : Sound runtime) (due : Prop) [Decidable due] (session : Feeding Logits) :
    ∃ out, (if due then publishDurableCut runtime session else (.ok (), session)) = (.ok (), out) := by
  rw [publishDurableCut]
  dsimp only
  rw [sound.saves]
  split_ifs <;> exact ⟨_, rfl⟩

theorem Sound.prefill (sound : Sound runtime) (session : Feeding Logits) {batch : List ℕ} (some_ : batch ≠ []) :
    ∃ logits out, prefill runtime session batch = (.ok logits, out) := by
  rw [Server.prefill, sound.prefills _ _ some_]
  exact ⟨_, _, rfl⟩

theorem Sound.prefillFrom (sound : Sound runtime) (logits : Option Logits) :
    ∃ last out, prefillFrom runtime durable tokens cursor logits session = (.ok last, out) := by
  induction remaining : tokens.length - cursor using Nat.strong_induction_on generalizing cursor session logits with
  | _ remaining ih =>
    rcases Nat.lt_or_ge cursor tokens.length with more | done
    · have moved := @lt_segmentEnd durable tokens.length cursor more
      have some_ : (tokens.drop cursor).take (segmentEnd durable tokens.length cursor - cursor) ≠ [] := by
        apply List.ne_nil_of_length_pos
        rw [List.length_take, List.length_drop]
        omega
      obtain ⟨next, fed, is⟩ := sound.prefill session some_
      obtain ⟨out, is'⟩ := sound.published (durable ∧ segmentEnd durable tokens.length cursor < tokens.length ∧
        isCut tokens.length (segmentEnd durable tokens.length cursor)) fed
      rw [prefillFrom_eq more, is]
      dsimp only
      rw [is']
      exact ih _ (by omega) _ rfl
    · rw [Server.prefillFrom, dif_neg (by omega)]
      exact ⟨_, _, rfl⟩

theorem cutsBelow_matched (count matched : ℕ) : cutsBelow count matched matched = [] := by
  apply List.filter_eq_nil_iff.mpr
  intro cut mem
  have := List.mem_range.mp mem
  simp only [Bool.and_eq_true, decide_eq_true_eq, not_and]
  omega

/-- What is published before the loop: the matched prefix, where it is a cut. -/
theorem fed_of_matched (inside : matched < tokens.length) (history : session.tokenHistory = tokens.take matched)
    (fresh : session.fed = [] ∧ session.published = [])
    (enabled : durable = (runtime.prefixCacheEnabled && runtime.hasDurable))
    (is : (if durable ∧ 0 < matched ∧ isCut tokens.length matched then
      publishDurableCut runtime session else (.ok (), session)) =
      (.ok (), out)) : Fed durable tokens matched matched out := by
  have fed : session.fed.flatten = (tokens.take matched).drop matched := by
    rw [fresh.1, List.drop_eq_nil_of_le (List.length_take_le _ _)]
    rfl
  have published : session.published.map Prod.snd = if durable then
      (cutsBelow tokens.length matched matched).map tokens.take else [] := by
    rw [fresh.2, cutsBelow_matched]
    split <;> rfl
  rcases Nat.eq_zero_or_pos matched with rfl | positive
  · rw [if_neg (by simp)] at is
    cases is
    refine ⟨history, fed, published.trans ?_⟩
    rw [cutsBelow_succ_of_not (by lia)]
  · apply Fed.of_published (by lia) history fed published (fun _ => rfl) enabled
    rw [← is]
    congr 1
    simp [positive, inside]

end Runs

/-- The suffix is fed once and in order, and with a durable cache exactly the cuts are published, each while the session
holds the tokens before it. -/
theorem prefillTokenSuffix_exact {tokens : List ℕ} {matched : ℕ} (inside : matched < tokens.length)
    {session : Feeding Logits}
    (history : session.tokenHistory = tokens.take matched) (fresh : session.fed = [] ∧ session.published = []) :
    (∀ logits out, prefillTokenSuffix runtime session tokens matched = (.ok logits, out) →
      logits = runtime.logitsOf tokens ∧ out.fed.flatten = tokens.drop matched ∧ out.tokenHistory = tokens ∧
      out.published.map Prod.snd =
        if runtime.prefixCacheEnabled && runtime.hasDurable then
          ((List.range tokens.length).filter fun cut => max matched 1 ≤ cut ∧
            (cut % durableFullInterval = 0 ∨ cut = tokens.length - 1)).map tokens.take
        else []) ∧
    (Sound runtime → ∃ logits out, prefillTokenSuffix runtime session tokens matched = (.ok logits, out)) := by
  rw [prefillTokenSuffix, if_neg (by omega)]
  dsimp only
  constructor
  · intro logits out is
    split at is
    · cases is
    next _ started first =>
    have begun := fed_of_matched inside history fresh rfl first
    split at is
    · cases is
    · next last after run =>
      cases is
      obtain ⟨whole, result⟩ := prefillFrom_ok rfl (Nat.le_refl _) inside.le begun run
      rw [if_pos inside, Option.some.injEq] at result
      refine ⟨result, by rw [whole.fed, List.take_length], by rw [whole.history, List.take_length], ?_⟩
      rw [whole.published, cutsBelow_succ_of_not (by omega), cutsBelow]
      congr 2
      apply List.filter_congr
      intro cut mem
      have below := List.mem_range.mp mem
      simp [isCut, below, Bool.or_comm]
    · cases is
  · intro sound
    obtain ⟨started, first⟩ := sound.published
      ((runtime.prefixCacheEnabled && runtime.hasDurable) = true ∧ 0 < matched ∧ isCut tokens.length matched = true) session
    rw [first]
    dsimp only
    obtain ⟨last, out, run⟩ := @Sound.prefillFrom _ _ (runtime.prefixCacheEnabled && runtime.hasDurable) tokens
      matched started sound none
    have result := (prefillFrom_ok rfl (Nat.le_refl _) inside.le (fed_of_matched inside history fresh rfl first) run).2
    rw [if_pos inside] at result
    rw [run, result]
    exact ⟨_, _, rfl⟩

/-- An engine and a cache that do not fail. -/
def soundRuntime : InferenceRuntime ℕ where
  prefixCacheEnabled := true
  hasDurable := true
  logitsOf := List.length
  prefillFails _ _ := false
  save _ _ := .ok ()

theorem prefillTokenSuffix_three_tokens : ∃ logits out,
    prefillTokenSuffix soundRuntime ⟨[7], none, true, 0, [], []⟩ [7, 8, 9] 1 = (.ok logits, out) ∧
      out.published.map Prod.snd = [[7, 8]] := by
  obtain ⟨exact_, finishes⟩ := @prefillTokenSuffix_exact _ soundRuntime [7, 8, 9] 1 (by decide) ⟨[7], none, true, 0,
    [], []⟩ rfl ⟨rfl, rfl⟩
  obtain ⟨logits, out, is⟩ := finishes ⟨fun _ _ _ => rfl, fun _ _ => rfl⟩
  obtain ⟨-, -, -, published⟩ := exact_ logits out is
  exact ⟨logits, out, is, published.trans (by decide)⟩

end Muser.Server
