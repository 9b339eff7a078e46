import Mathlib.Order.Lattice.Nat
import Muser.Lib.Repeats
import Muser.Reply.Sampler

/-! # The penalty for repetitions

A token is penalized that would go on with a repetition: the longest ending of the last tokens, behind the last
breaker, that stood earlier with the token behind it. The tokens that the penalty sees were cut for another
penalty before, so what it finds is what it should find only where that cut does not matter.
-/

namespace Muser.Reply

/-! ## What is penalized -/

section Window

variable (tokenizer : Tokenizer) (breakers : List Text) (window : List ℕ)

/-- The bytes of the first tokens, so many. -/
def bytesBefore (count : ℕ) : ℕ := ((window.take count).flatMap tokenizer.tokenBytes).length

/-- The last tokens, so many of them, stand behind every breaker. -/
def Behind (length : ℕ) : Prop :=
  length ≤ window.length ∧ ∀ breaker ∈ breakers, breaker ≠ [] → ∀ start,
    Occurs (Utf8.encodeAll breaker) (window.flatMap tokenizer.tokenBytes) start →
      start + (Utf8.encodeAll breaker).length ≤ bytesBefore tokenizer window (window.length - length)

/-- A breaker stands in the bytes of a token. -/
def Broken (token : ℕ) : Prop := ∃ breaker ∈ breakers, breaker ≠ [] ∧ Utf8.encodeAll breaker <:+: tokenizer.tokenBytes token

/-- A token would go on with a repetition that is long enough. -/
def Counts (allowed token length : ℕ) : Prop := allowed ≤ length ∧ Behind tokenizer breakers window length ∧
    Repeats window length token

/-- The exponent of a penalty, by the longest repetition that counts; nothing where none does, or the token is broken. -/
def Defines (allowed : ℕ) (counts : ℕ → Prop) (broken : Prop) : Option ℕ → Prop
  | none => broken ∨ ∀ length, ¬counts length
  | some exponent => ¬broken ∧ ∃ length, IsGreatest {length | counts length} length ∧ exponent = min (length - allowed) 1024

variable {tokenizer breakers window} {length : ℕ}

/-- Lengths of repetitions: those up to the longest, from the least that is allowed. -/
structure Lengths (allowed : ℕ) (counts : ℕ → Prop) : Prop where
  least : ∀ length, counts length → allowed ≤ length
  shorter : ∀ length fewer, counts length → allowed ≤ fewer → fewer ≤ length → counts fewer
  bounded : ∃ bound, ∀ length, counts length → length ≤ bound

theorem Lengths.greatest {allowed : ℕ} {counts : ℕ → Prop} (lengths : Lengths allowed counts) (some_ : counts length) :
    ∃ longest, IsGreatest {length | counts length} longest := by
  obtain ⟨bound, bounded⟩ := lengths.bounded
  have bounded_ : BddAbove {length | counts length} := ⟨bound, fun length is => bounded length is⟩
  exact ⟨sSup {length | counts length}, Nat.sSup_mem ⟨length, some_⟩ bounded_, fun other is => le_csSup bounded_ is⟩

theorem Lengths.iff_le {allowed longest : ℕ} {counts : ℕ → Prop} (lengths : Lengths allowed counts)
    (greatest : IsGreatest {length | counts length} longest) : counts length ↔ allowed ≤ length ∧ length ≤ longest :=
  ⟨fun is => ⟨lengths.least length is, greatest.2 is⟩, fun both => lengths.shorter longest length greatest.1 both.1 both.2⟩

/-- Two kinds of repetitions give the same exponent where they have the same lengths as far as these matter. -/
theorem defines_iff {allowed : ℕ} {counts counts' : ℕ → Prop} {broken : Prop} {exponent : Option ℕ}
    (lengths : Lengths allowed counts)
    (lengths' : Lengths allowed counts') (is : Defines allowed counts broken exponent) :
    Defines allowed counts' broken exponent ↔
      (¬broken → ∀ length, length ≤ allowed + 1024 → (counts length ↔ counts' length)) := by
  cases exponent with
  | none =>
    constructor
    · intro is' unbroken length _
      exact iff_of_false (is.resolve_left unbroken length) (is'.resolve_left unbroken length)
    · intro same
      by_cases broken_ : broken
      · exact .inl broken_
      · refine .inr fun length counts_ => ?_
        have first := lengths'.shorter length allowed counts_ le_rfl (lengths'.least length counts_)
        exact is.resolve_left broken_ allowed ((same broken_ allowed (Nat.le_add_right _ _)).mpr first)
  | some exponent =>
    obtain ⟨unbroken, longest, greatest, rfl⟩ := is
    have least := lengths.least longest greatest.1
    constructor
    · rintro ⟨-, longest', greatest', same⟩ - length short
      have least' := lengths'.least longest' greatest'.1
      rw [lengths.iff_le greatest, lengths'.iff_le greatest']
      lia
    · intro same
      have first : counts allowed := (lengths.iff_le greatest).mpr ⟨le_rfl, least⟩
      obtain ⟨longest', greatest'⟩ := lengths'.greatest ((same unbroken allowed (Nat.le_add_right _ _)).mp first)
      have least' := lengths'.least longest' greatest'.1
      refine ⟨unbroken, longest', greatest', ?_⟩
      -- The lengths agree at the exponent of either kind, and one past it.
      have at_ := same unbroken (min longest (allowed + 1024)) (min_le_right _ _)
      have at' := same unbroken (min longest' (allowed + 1024)) (min_le_right _ _)
      rw [lengths.iff_le greatest, lengths'.iff_le greatest'] at at_ at'
      lia

theorem bytesBefore_mono {count count' : ℕ} (less : count ≤ count') :
    bytesBefore tokenizer window count ≤ bytesBefore tokenizer window count' := by
  obtain ⟨rest, is⟩ : window.take count <+: window.take count' := List.take_prefix_take_left less
  rw [bytesBefore, bytesBefore, ← is, List.flatMap_append, List.length_append]
  exact Nat.le_add_right _ _

theorem lastOccurrence_spec {needle bytes : Bytes} (some_ : needle ≠ []) :
    (∀ last, lastOccurrence needle bytes = some last → Occurs needle bytes last ∧ ∀ start, Occurs needle bytes start →
      start ≤ last) ∧
      (lastOccurrence needle bytes = none → ∀ start, ¬Occurs needle bytes start) := by
  have test (start : ℕ) : decide ((bytes.drop start).take needle.length = needle) = true ↔ Occurs needle bytes start := by
    rw [decide_eq_true_iff, Occurs, List.prefix_iff_eq_take, eq_comm]
  have below {start : ℕ} (occurs : Occurs needle bytes start) : start < bytes.length + 1 - needle.length := by
    have := occurs.le some_
    omega
  obtain ⟨found, none_⟩ := @find?_range_reverse (fun start => decide ((bytes.drop start).take needle.length = needle))
    (bytes.length + 1 - needle.length)
  refine ⟨fun last is => ?_, fun is start occurs => ?_⟩
  · obtain ⟨-, passes, most⟩ := found last is
    exact ⟨(test last).mp passes, fun start occurs => most start (below occurs) ((test start).mpr occurs)⟩
  · have fails := none_ is start (below occurs)
    rw [(test start).mpr occurs] at fails
    cases fails

/-- How many tokens start at a place of the bytes or behind it. -/
def tokensAfter (tokenizer : Tokenizer) (window : List ℕ) (stop : ℕ) : ℕ :=
  ((((List.range (window.length + 1)).map (bytesBefore tokenizer window)).findIdx? (stop ≤ ·)).map
    (window.length - ·)).getD 0

theorem le_tokensAfter_iff {stop : ℕ} (within : stop ≤ bytesBefore tokenizer window window.length)
    (fits : length ≤ window.length) :
    length ≤ tokensAfter tokenizer window stop ↔ stop ≤ bytesBefore tokenizer window (window.length - length) := by
  rw [tokensAfter]
  cases found : ((List.range (window.length + 1)).map (bytesBefore tokenizer window)).findIdx? (stop ≤ ·) with
  | none =>
    have fails := List.findIdx?_eq_none_iff.mp found _
      (List.mem_map_of_mem (List.mem_range.mpr (Nat.lt_succ_self window.length)))
    exact absurd within (of_decide_eq_false fails)
  | some first =>
    obtain ⟨inside, reached, least⟩ := List.findIdx?_eq_some_iff_getElem.mp found
    rw [List.getElem_map, List.getElem_range, decide_eq_true_iff] at reached
    rw [List.length_map, List.length_range] at inside
    rw [Option.map_some, Option.getD_some]
    constructor
    · intro less
      exact reached.trans (bytesBefore_mono (by lia))
    · intro before
      by_contra more
      have earlier := least (window.length - length) (by lia)
      rw [List.getElem_map, List.getElem_range, decide_eq_true_iff] at earlier
      exact earlier before

/-- What one breaker leaves of a limit. -/
def limitBy (tokenizer : Tokenizer) (window : List ℕ) (limit : ℕ) (breaker : Text) : ℕ :=
  if breaker = [] then limit
  else match lastOccurrence (Utf8.encodeAll breaker) (window.flatMap tokenizer.tokenBytes) with
    | none => limit
    | some start => min limit (tokensAfter tokenizer window (start + (Utf8.encodeAll breaker).length))

theorem repetitionLimit_eq : repetitionLimit tokenizer window breakers =
    breakers.foldl (limitBy tokenizer window) window.length := rfl

theorem le_limitBy_iff {limit : ℕ} {breaker : Text} (fits : length ≤ window.length) :
    length ≤ limitBy tokenizer window limit breaker ↔
    length ≤ limit ∧ (breaker ≠ [] → ∀ start, Occurs (Utf8.encodeAll breaker) (window.flatMap tokenizer.tokenBytes) start →
      start + (Utf8.encodeAll breaker).length ≤ bytesBefore tokenizer window (window.length - length)) := by
  rw [limitBy]
  split
  · next empty => simp only [empty, ne_eq, not_true_eq_false, false_implies, and_true]
  · next some_ =>
    have bytes : Utf8.encodeAll breaker ≠ [] := fun none => some_ (Utf8.encodeAll_eq_nil none)
    obtain ⟨found, none_⟩ := @lastOccurrence_spec (Utf8.encodeAll breaker) (window.flatMap tokenizer.tokenBytes) bytes
    split
    · next is => exact ⟨fun less => ⟨less, fun _ start occurs => absurd occurs (none_ is start)⟩, fun both => both.1⟩
    · next last is =>
      obtain ⟨occurs, most⟩ := found last is
      have within := occurs.le bytes
      have whole : bytesBefore tokenizer window window.length = (window.flatMap tokenizer.tokenBytes).length := by
        rw [bytesBefore, List.take_length]
      rw [le_min_iff, le_tokensAfter_iff (by rw [whole]; exact within) fits]
      apply and_congr_right
      intro _
      refine ⟨fun before _ start occurs' => ?_, fun before => before some_ last occurs⟩
      have := most start occurs'
      lia

theorem foldl_limitBy_le (breakers : List Text) (limit : ℕ) : breakers.foldl (limitBy tokenizer window) limit ≤ limit := by
  induction breakers generalizing limit with
  | nil => exact le_rfl
  | cons breaker breakers ih =>
    apply (ih _).trans
    rw [limitBy]
    split
    · exact le_rfl
    · split
      · exact le_rfl
      · exact min_le_left _ _

/-- The limit of repetitions is how many tokens stand behind every breaker. -/
theorem le_repetitionLimit_iff : length ≤ repetitionLimit tokenizer window breakers ↔
    Behind tokenizer breakers window length := by
  have folded (limit : ℕ) (fits : length ≤ window.length) : length ≤ breakers.foldl (limitBy tokenizer window) limit ↔
      length ≤ limit ∧ ∀ breaker ∈ breakers, breaker ≠ [] → ∀ start,
        Occurs (Utf8.encodeAll breaker) (window.flatMap tokenizer.tokenBytes) start →
          start + (Utf8.encodeAll breaker).length ≤ bytesBefore tokenizer window (window.length - length) := by
    induction breakers generalizing limit with
    | nil => simp only [List.foldl_nil, List.not_mem_nil, false_implies, implies_true, and_true]
    | cons breaker breakers ih => rw [List.foldl_cons, ih, le_limitBy_iff fits, List.forall_mem_cons, and_assoc]
  rw [repetitionLimit_eq, Behind]
  constructor
  · intro less
    have fits := less.trans (foldl_limitBy_le breakers window.length)
    exact (folded window.length fits).mp less
  · intro behind
    exact (folded window.length behind.1).mpr behind

theorem mem_repetitions_iff {allowed maxMatch token : ℕ} : length ∈ repetitions window allowed maxMatch token ↔
    (allowed ≤ length ∧ length ≤ maxMatch) ∧ Repeats window length token := by
  rw [repetitions, List.mem_filter, List.mem_range'_1, List.any_eq_true]
  apply and_congr
  · omega
  · simp only [List.mem_range, Bool.and_eq_true, decide_eq_true_iff, Repeats]
    constructor
    · rintro ⟨start, below, both⟩
      exact ⟨start, by omega, both⟩
    · rintro ⟨start, within, both⟩
      exact ⟨start, by omega, both⟩

theorem isBroken_iff {token : ℕ} :
    (breakers.any fun breaker => breaker ≠ [] ∧
      (lastOccurrence (Utf8.encodeAll breaker) (tokenizer.tokenBytes token)).isSome) = true ↔
      Broken tokenizer breakers token := by
  rw [List.any_eq_true, Broken]
  simp only [decide_eq_true_iff]
  refine exists_congr fun breaker => and_congr_right fun _ => and_congr_right fun some_ => ?_
  have bytes : Utf8.encodeAll breaker ≠ [] := fun none => some_ (Utf8.encodeAll_eq_nil none)
  obtain ⟨found, none_⟩ := @lastOccurrence_spec (Utf8.encodeAll breaker) (tokenizer.tokenBytes token) bytes
  constructor
  · intro is
    obtain ⟨last, is⟩ := Option.isSome_iff_exists.mp is
    exact (found last is).1.isInfix.trans (List.drop_suffix last _).isInfix
  · rintro ⟨front, rest, split⟩
    rw [Option.isSome_iff_ne_none]
    intro is
    apply none_ is front.length
    rw [Occurs, ← split, List.append_assoc, List.drop_left]
    exact List.prefix_append _ _

end Window

/-! ## The tokens that are given -/

section Given

variable {R : Type} (tokenizer : Tokenizer) (request : SamplerRequest R)

/-- The tokens that the penalty looks at, of those that it is given. -/
def dryWindow (history : List ℕ) : List ℕ := lastTokens (request.dryPenaltyLastN.getD 64) history

def dryAllowed : ℕ := request.dryAllowedLength.getD 2

def dryBreakers : List Text := request.drySequenceBreakers.getD defaultBreakers

/-- The tokens that are given to the stages that look at what was said. -/
def given (history : List ℕ) : List ℕ := lastTokens (request.repeatLastN.getD 64) history

variable {tokenizer request} {history : List ℕ} {token : ℕ}

theorem lengths_counts {breakers : List Text} {window : List ℕ} {allowed : ℕ} :
    Lengths allowed (Counts tokenizer breakers window allowed token) where
  least := fun _ counts => counts.1
  shorter := by
    rintro length fewer ⟨-, behind, repeats⟩ enough less
    refine ⟨enough, ⟨less.trans behind.1, fun breaker mem some_ start occurs => ?_⟩, repeats.shorter less⟩
    exact (behind.2 breaker mem some_ start occurs).trans (bytesBefore_mono (by omega))
  bounded := ⟨window.length, fun length counts => counts.2.1.1⟩

theorem lastTokens_suffix (count : ℤ) (history : List ℕ) : lastTokens count history <:+ history := by
  rw [lastTokens]
  split
  · exact List.suffix_rfl
  · exact List.drop_suffix _ _

/-- The tokens that are left of a cut end the tokens that the penalty would look at. -/
theorem lastTokens_cut (count : ℤ) {cut : List ℕ} (is : cut <:+ history) :
    lastTokens count cut <:+ lastTokens count history := by
  apply List.suffix_of_suffix_length_le ((lastTokens_suffix count cut).trans is) (lastTokens_suffix count history)
  have shorter := is.length_le
  rw [lastTokens, lastTokens]
  split
  · exact shorter
  · rw [List.length_drop, List.length_drop]
    omega

/-- What stands behind every breaker does so in the part of a window that holds it. -/
theorem Behind.of_append {breakers : List Text} {front window : List ℕ} {length : ℕ} (fits : length ≤ window.length)
    (behind : Behind tokenizer breakers (front ++ window) length) : Behind tokenizer breakers window length := by
  refine ⟨fits, fun breaker mem some_ start occurs => ?_⟩
  have occurs' : Occurs (Utf8.encodeAll breaker) ((front ++ window).flatMap tokenizer.tokenBytes)
      ((front.flatMap tokenizer.tokenBytes).length + start) := by
    rw [List.flatMap_append, occurs_append_left]
    exact occurs
  have before := behind.2 breaker mem some_ _ occurs'
  have split : bytesBefore tokenizer (front ++ window) ((front ++ window).length - length) =
      (front.flatMap tokenizer.tokenBytes).length + bytesBefore tokenizer window (window.length - length) := by
    rw [bytesBefore, bytesBefore, List.length_append, Nat.add_sub_assoc fits, List.take_length_add_append,
      List.flatMap_append,
      List.length_append]
  omega

/-- A repetition that counts in the last tokens is in those of them that are given, and one that is there counts. -/
structure Kept (tokenizer : Tokenizer) (request : SamplerRequest R) (history : List ℕ) (token length : ℕ) : Prop where
  found : Behind tokenizer (dryBreakers request) (dryWindow request history) length →
    Repeats (dryWindow request history) length token →
    2 ≤ (given request history).length ∧ Repeats (dryWindow request (given request history)) length token
  behind : 2 ≤ (given request history).length →
    Behind tokenizer (dryBreakers request) (dryWindow request (given request history)) length →
    Repeats (dryWindow request (given request history)) length token →
    Behind tokenizer (dryBreakers request) (dryWindow request history) length

theorem counts_iff_kept {length : ℕ} (enough : dryAllowed request ≤ length) :
    (2 ≤ (given request history).length ∧ Counts tokenizer (dryBreakers request) (dryWindow request (given request history))
        (dryAllowed request) token length ↔
      Counts tokenizer (dryBreakers request) (dryWindow request history) (dryAllowed request) token length) ↔
    Kept tokenizer request history token length := by
  obtain ⟨front, split⟩ : dryWindow request (given request history) <:+ dryWindow request history :=
    lastTokens_cut _ (lastTokens_suffix _ _)
  constructor
  · intro same
    refine ⟨fun behind repeats => ?_, fun two behind repeats => ?_⟩
    · obtain ⟨two, -, -, repeats'⟩ := same.mpr ⟨enough, behind, repeats⟩
      exact ⟨two, repeats'⟩
    · exact (same.mp ⟨two, enough, behind, repeats⟩).2.1
  · rintro ⟨found, behind_⟩
    constructor
    · rintro ⟨two, -, behind, repeats⟩
      exact ⟨enough, behind_ two behind repeats, split ▸ repeats.append_left front⟩
    · rintro ⟨-, behind, repeats⟩
      obtain ⟨two, repeats'⟩ := found behind repeats
      exact ⟨two, enough, (split ▸ behind).of_append repeats'.length_lt.le, repeats'⟩

/-- Nothing is lost where as many tokens are given as the penalty looks at. -/
theorem kept_of_covered (covered : dryWindow request (given request history) = dryWindow request history)
    (two : 2 ≤ (given request history).length ∨ 0 < dryAllowed request) {length : ℕ} (enough : dryAllowed request ≤ length) :
    Kept tokenizer request history token length := by
  refine ⟨fun _ repeats => ⟨?_, covered ▸ repeats⟩, fun _ behind _ => covered ▸ behind⟩
  refine two.elim id fun positive => ?_
  have fits := repeats.length_lt
  have shorter := (lastTokens_suffix (request.dryPenaltyLastN.getD 64) (given request history)).length_le
  rw [← covered, dryWindow] at fits
  lia

end Given

/-! ## The stage -/

section Stage

variable {R : Type} [Field R] [LinearOrder R] (tokenizer : Tokenizer) (request : SamplerRequest R)

/-- The exponent of what a token is penalized by, in view of some tokens. -/
def dryExponent (history : List ℕ) (token : ℕ) : Option ℕ :=
  if request.dryMultiplier.getD 0 ≤ 0 ∨ history.length < 2 then none
  else
    let allowed := request.dryAllowedLength.getD 2
    let history := lastTokens (request.dryPenaltyLastN.getD 64) history
    let breakers := request.drySequenceBreakers.getD defaultBreakers
    let limit := repetitionLimit tokenizer history breakers
    if limit < allowed then none
    else match (repetitions history allowed (min (history.length - 1) limit) token).max? with
      | none => none
      | some length =>
        if breakers.any fun breaker => breaker ≠ [] ∧
          (lastOccurrence (Utf8.encodeAll breaker) (tokenizer.tokenBytes token)).isSome then none
        else some (min (length - allowed) 1024)

theorem dryPenalty_eq (history : List ℕ) (token : ℕ) : dryPenalty tokenizer request history token =
    (dryExponent tokenizer request history token).elim 0 fun exponent =>
      request.dryMultiplier.getD 0 * dryBase request ^ exponent := by
  rw [dryPenalty, dryExponent]
  split
  · rfl
  · dsimp only
    split
    · rfl
    · cases (repetitions _ _ _ token).max? with
      | none => rfl
      | some length =>
        dsimp only
        split
        · rfl
        · rfl

variable {tokenizer request} {history : List ℕ} {token : ℕ}

/-- The exponent is that of the definition for the tokens that the penalty is given. -/
theorem dryExponent_defines (enabled : 0 < request.dryMultiplier.getD 0) :
    Defines (dryAllowed request)
      (fun length => 2 ≤ history.length ∧
        Counts tokenizer (dryBreakers request) (dryWindow request history) (dryAllowed request) token length)
      (Broken tokenizer (dryBreakers request) token) (dryExponent tokenizer request history token) := by
  rw [dryExponent]
  split
  · next idle => exact .inr fun length counts => (idle.elim (not_le.mpr enabled) (not_lt.mpr counts.1)).elim
  · next busy =>
    rw [not_or, not_lt] at busy
    dsimp only
    split
    · next less =>
      refine .inr fun length counts => ?_
      have within := le_repetitionLimit_iff.mpr counts.2.2.1
      have enough := counts.2.1
      rw [dryAllowed] at enough
      exact absurd (enough.trans within) (not_le.mpr less)
    · have mem_iff (length : ℕ) : length ∈ repetitions (dryWindow request history) (dryAllowed request)
          (min ((dryWindow request history).length - 1)
            (repetitionLimit tokenizer (dryWindow request history) (dryBreakers request))) token ↔
          2 ≤ history.length ∧ Counts tokenizer (dryBreakers request) (dryWindow request history) (dryAllowed request)
            token length := by
        rw [mem_repetitions_iff, Counts, ← le_repetitionLimit_iff, le_min_iff]
        constructor
        · rintro ⟨⟨enough, -, within⟩, repeats⟩
          exact ⟨busy.2, enough, within, repeats⟩
        · rintro ⟨-, enough, within, repeats⟩
          exact ⟨⟨enough, Nat.le_sub_one_of_lt repeats.length_lt, within⟩, repeats⟩
      split
      · next none_ =>
        refine .inr fun length counts => ?_
        have empty := List.max?_eq_none_iff.mp none_
        have mem := (mem_iff length).mpr counts
        rw [dryWindow, dryAllowed, dryBreakers, empty] at mem
        cases mem
      · next longest found =>
        obtain ⟨mem, most⟩ := List.max?_eq_some_iff.mp found
        split
        · next broken => exact .inl (isBroken_iff.mp broken)
        · next unbroken =>
          refine ⟨fun broken => unbroken (isBroken_iff.mpr broken), longest,
            ⟨(mem_iff longest).mp mem, fun length counts => ?_⟩, rfl⟩
          exact most length ((mem_iff length).mpr counts)

/-- The stage takes from each logit what the exponent says; and the exponents are those of the last tokens of the
whole history just where no repetition is lost among the tokens that are given, and none is found that a breaker ends. -/
theorem dry_iff (elementary : Elementary R) (params : SamplingParams R) (enabled : 0 < request.dryMultiplier.getD 0) :
    (∀ chain rng, Chain.stage elementary params request tokenizer history chain rng .dry = .ok
      ({ chain.reweigh fun candidate =>
        candidate.2.map (· - (dryExponent tokenizer request (given request history) candidate.1).elim 0
          fun exponent => request.dryMultiplier.getD 0 * dryBase request ^ exponent) with sorted := false }, rng)) ∧
    ((∀ token, Defines (dryAllowed request)
      (Counts tokenizer (dryBreakers request) (dryWindow request history) (dryAllowed request) token)
        (Broken tokenizer (dryBreakers request) token) (dryExponent tokenizer request (given request history) token)) ↔
      ∀ token, ¬Broken tokenizer (dryBreakers request) token → ∀ length, dryAllowed request ≤ length →
        length ≤ dryAllowed request + 1024 → Kept tokenizer request history token length) := by
  constructor
  · intro chain rng
    rw [Chain.stage, Chain.dry]
    simp only [dryPenalty_eq, given]
  · refine forall_congr' fun token => ?_
    have given_ : Lengths (dryAllowed request) fun length => 2 ≤ (given request history).length ∧
        Counts tokenizer (dryBreakers request) (dryWindow request (given request history)) (dryAllowed request)
          token length := by
      obtain ⟨least, shorter, bound, bounded⟩ := @lengths_counts tokenizer token (dryBreakers request)
        (dryWindow request (given request history)) (dryAllowed request)
      exact ⟨fun length counts => least length counts.2, fun length fewer counts enough less =>
        ⟨counts.1, shorter length fewer counts.2 enough less⟩,
        bound, fun length counts => bounded length counts.2⟩
    rw [defines_iff given_ lengths_counts (dryExponent_defines enabled)]
    refine forall_congr' fun unbroken =>
      ⟨fun same length enough short => (counts_iff_kept enough).mp (same length short), ?_⟩
    intro kept length short
    by_cases enough : dryAllowed request ≤ length
    · exact (counts_iff_kept enough).mpr (kept length enough short)
    · exact iff_of_false (fun counts => enough counts.2.1) fun counts => enough counts.1

/-- A tokenizer of single letters. -/
def letters : Tokenizer := ⟨fun token => [UInt8.ofNat (token + 97)], fun _ => [], false⟩

/-- A request that gives so many of the last tokens. -/
def dryRequest (repeatLastN : Option ℤ) : SamplerRequest ℚ :=
  { temperature := none, topP := none, topK := none, typicalP := none, minP := none, topNSigma := none, minKeep := none
    ignoreEos := false, logitBias := none, repeatPenalty := none, repeatLastN := repeatLastN, presencePenalty := none
    frequencyPenalty := none, dryMultiplier := some 1, dryBase := none, dryAllowedLength := none, dryPenaltyLastN := none
    drySequenceBreakers := none, mirostat := none, mirostatTau := none, mirostatEta := none, adaptiveTarget := none
    adaptiveDecay := none, dynatempRange := none, dynatempExponent := none, xtcProbability := none, xtcThreshold := none
    samplers := none }

/-- Where two tokens are given, what stood before them is not seen to be repeated. -/
theorem given_forgets : ¬∀ token, Defines (dryAllowed (dryRequest (some 2)))
    (Counts letters (dryBreakers (dryRequest (some 2))) (dryWindow (dryRequest (some 2)) [1, 2, 3, 1, 2])
      (dryAllowed (dryRequest (some 2))) token)
    (Broken letters (dryBreakers (dryRequest (some 2))) token)
    (dryExponent letters (dryRequest (some 2)) (given (dryRequest (some 2)) [1, 2, 3, 1, 2]) token) := by
  intro all
  have none_ : dryExponent letters (dryRequest (some 2)) (given (dryRequest (some 2)) [1, 2, 3, 1, 2]) 3 = none :=
    by decide +kernel
  have third := all 3
  rw [none_] at third
  obtain ⟨breaker, mem, -, infix_⟩ | none_ := third
  · have absent : ∀ breaker ∈ defaultBreakers, ¬Utf8.encodeAll breaker <:+: letters.tokenBytes 3 := by decide
    exact absent breaker mem infix_
  · apply none_ 2
    refine ⟨le_rfl, ⟨by decide, fun breaker mem _ start occurs => ?_⟩, 0, by decide⟩
    have absent : ∀ breaker ∈ defaultBreakers,
      ¬Utf8.encodeAll breaker <:+: [1, 2, 3, 1, 2].flatMap letters.tokenBytes := by decide
    exact absurd (occurs.isInfix.trans (List.drop_suffix start _).isInfix) (absent breaker mem)

def levelElementary : Elementary ℚ where
  exp _ := 1
  ln _ := 0
  log2 _ := 0
  sqrt _ := 0
  powf _ _ := 1
  toUsize _ := 0
  plus logit bias := logit + bias
  exp_nonneg _ := zero_le_one
  exp_zero_pos := one_pos
  sqrt_nonneg _ := le_rfl

/-- The third letter, which continues the repetition at the end. -/
theorem dry_iff_default : Defines (dryAllowed (dryRequest none))
    (Counts letters (dryBreakers (dryRequest none)) (dryWindow (dryRequest none) [1, 2, 3, 1, 2])
      (dryAllowed (dryRequest none)) 3)
    (Broken letters (dryBreakers (dryRequest none)) 3)
    (dryExponent letters (dryRequest none) (given (dryRequest none) [1, 2, 3, 1, 2]) 3) :=
  (dry_iff levelElementary ⟨1, 1, 0, 1, 0, 0, 0⟩ (by decide)).2.mpr
    (fun _ _ _ enough _ => kept_of_covered rfl (.inr (by decide)) enough) 3

end Stage

end Muser.Reply
