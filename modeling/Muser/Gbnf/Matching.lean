import Muser.Gbnf.Branch

/-! # What a matcher accepts

A matcher is fed bytes and tokens. A token may be read as a token terminal or by its bytes, so that
what was fed has several readings: a word, and the bytes of a character that has begun. The branches
of a matcher are those readings that the grammar takes, whatever order its sets were visited in.
-/

namespace Muser.Gbnf

open ContextFree Earley Utf8

/-- What is fed to a matcher at once. -/
inductive Fragment where
  | bytes (bytes : Bytes)
  | token (token : UInt32) (bytes : Bytes)
deriving DecidableEq

namespace Fragment

/-- The bytes to be read as characters; a token without any is not. -/
def text : Fragment → Option Bytes
  | .bytes read => some read
  | .token _ spelled => if spelled = [] then none else some spelled

def terminal : Fragment → Option Input
  | .bytes _ => none
  | .token read spelled => some (.token read spelled)

end Fragment

def GrammarMatcher.feed (matcher : GrammarMatcher) (order : IterationOrder) :
    Fragment → Except String Unit × GrammarMatcher
  | .bytes bytes => matcher.acceptBytes order bytes
  | .token token bytes => matcher.acceptToken order token bytes

/-- Feed fragments one after the other, as long as they are accepted. -/
def GrammarMatcher.run (matcher : GrammarMatcher) (fed : List (IterationOrder × Fragment)) : Option GrammarMatcher :=
  fed.foldlM (fun matcher one => match matcher.feed one.1 one.2 with
    | (.ok (), after) => some after
    | (.error _, _) => none) matcher

/-- A fragment takes a reading on: its characters are complete up to one that has begun, or it is a
token where no character has begun. -/
inductive Goes (word : List Input) (pending : Bytes) (fragment : Fragment) : List Input → Bytes → Prop
  | text {bytes : Bytes} {characters : List Char} {rest : Bytes} {character : Char} (is : fragment.text = some bytes)
      (whole : pending ++ bytes = encodeAll characters ++ rest) (begun : Begun rest character) :
      Goes word pending fragment (word ++ characters.map .character) rest
  | terminal {input : Input} (is : fragment.terminal = some input) (none_ : pending = []) :
      Goes word pending fragment (word ++ [input]) []

/-- The readings of what was fed. -/
inductive Reads : List Fragment → List Input → Bytes → Prop
  | start : Reads [] [] []
  | step {fragments : List Fragment} {word after : List Input} {pending rest : Bytes} {fragment : Fragment}
      (before : Reads fragments word pending) (goes : Goes word pending fragment after rest) :
      Reads (fragments ++ [fragment]) after rest

section Readings

variable {grammar : Grammar} {word after : List Input} {pending rest : Bytes} {fragment : Fragment}
  {fragments : List Fragment} {branch : MatchBranch} {order : IterationOrder}

variable {character : Char} {characters : List Char}

theorem Grammar.takes_of_begun (begun : Begun pending character)
    (starts : grammar.Starts grammar.root (word ++ [.character character])) : grammar.Takes word pending := by
  by_cases none_ : pending = []
  · exact .inl ⟨none_, starts.of_append⟩
  · exact .inr ⟨none_, character, begun, starts⟩

theorem Grammar.Takes.begun (takes : grammar.Takes word pending) : ∃ character, Begun pending character := by
  rcases takes with ⟨rfl, -⟩ | ⟨-, character, begun, -⟩
  · exact ⟨default, begun_nil default⟩
  · exact ⟨character, begun⟩

theorem Reads.concat_iff : Reads (fragments ++ [fragment]) after rest ↔
    ∃ word pending, Reads fragments word pending ∧ Goes word pending fragment after rest := by
  constructor
  · intro reads
    generalize whole : fragments ++ [fragment] = all at reads
    cases reads with
    | start => exact absurd whole (by simp)
    | step before goes =>
      obtain ⟨rfl, same⟩ := List.append_inj' whole rfl
      cases same
      exact ⟨_, _, before, goes⟩
  · rintro ⟨word, pending, before, goes⟩
    exact .step before goes

/-- The bytes of a character that has begun are those of its front, or all of it is read. -/
theorem encodeAll_front {bytes : Bytes} (stuck : Stuck pending)
    (whole : pending ++ bytes = encodeAll characters ++ rest) (begun : Begun rest character) :
    (characters = [] ∧ Begun pending character) ∨ ∃ first others, characters = first :: others ∧ Begun pending first := by
  cases characters with
  | nil =>
    obtain ⟨tail, more, is⟩ := begun
    refine .inl ⟨rfl, bytes ++ tail, fun none_ => more (List.append_eq_nil_iff.mp none_).2, ?_⟩
    rw [is, show rest = pending ++ bytes from whole.symm, List.append_assoc]
  | cons first others =>
    refine .inr ⟨first, others, rfl, ?_⟩
    rw [encodeAll_cons, List.append_assoc] at whole
    rcases List.append_eq_append_iff.mp whole with ⟨tail, is, -⟩ | ⟨tail, is, -⟩
    · refine ⟨tail, ?_, is⟩
      rintro rfl
      rw [List.append_nil] at is
      exact absurd (decode_encode first []) (by rw [List.append_nil, is]; exact stuck _ _)
    · exact absurd (decode_encode first tail) (by rw [← is]; exact stuck _ _)

/-- A grammar that takes a reading takes what was read before. -/
theorem Goes.takes_before (stuck : Stuck pending) (goes : Goes word pending fragment after rest)
    (takes : grammar.Takes after rest) : grammar.Takes word pending := by
  by_cases none_ : pending = []
  · cases goes with
    | text | terminal => exact .inl ⟨none_, takes.starts.of_append⟩
  · cases goes with
    | terminal _ none' => exact absurd none' none_
    | @text bytes characters rest _ _ whole _ =>
      rcases takes with ⟨rfl, starts⟩ | ⟨some_, character, begun, starts⟩
      · rcases encodeAll_front stuck whole (begun_nil default) with ⟨rfl, -⟩ | ⟨first, others, rfl, begun⟩
        · exact absurd (List.append_eq_nil_iff.mp whole).1 none_
        · refine Grammar.takes_of_begun begun (@Grammar.Starts.of_append _ _ (others.map .character) _ ?_)
          rwa [List.append_assoc]
      · rcases encodeAll_front stuck whole begun with ⟨rfl, begun'⟩ | ⟨first, others, rfl, begun'⟩
        · refine Grammar.takes_of_begun begun' ?_
          rwa [List.map_nil, List.append_nil] at starts
        · refine Grammar.takes_of_begun begun' (@Grammar.Starts.of_append _ _ (others.map Input.character ++
            [Input.character character]) _ ?_)
          rwa [List.map_cons, ← List.singleton_append, List.append_assoc, List.append_assoc, ← List.append_assoc] at starts

theorem Goes.stuck (goes : Goes word pending fragment after rest) : Stuck rest := by
  cases goes with
  | text _ _ begun => exact begun.stuck
  | terminal => exact stuck_nil

theorem Reads.stuck (reads : Reads fragments word pending) : Stuck pending := by
  cases reads with
  | start => exact stuck_nil
  | step _ goes => exact goes.stuck

/-- Bytes cut in two, as characters of the front, of the back, and one that has begun between them. -/
theorem encodeAll_cut {front back : Bytes} (begun : ∃ character, Begun rest character)
    (whole : front ++ back = encodeAll characters ++ rest) :
    ∃ early late between, characters = early ++ late ∧ front = encodeAll early ++ between ∧
      between ++ back = encodeAll late ++ rest ∧ ∃ character, Begun between character := by
  induction characters generalizing front with
  | nil =>
    obtain ⟨character, tail, some_, is⟩ := begun
    refine ⟨[], [], front, rfl, rfl, whole, character, back ++ tail,
      fun none_ => some_ (List.append_eq_nil_iff.mp none_).2, ?_⟩
    rw [is, show rest = front ++ back from whole.symm, List.append_assoc]
  | cons first others ih =>
    rw [encodeAll_cons, List.append_assoc] at whole
    rcases List.append_eq_append_iff.mp whole with ⟨tail, is, back_⟩ | ⟨tail, is, others_⟩
    · by_cases none_ : tail = []
      · subst none_
        rw [List.append_nil] at is
        refine ⟨[first], others, [], rfl, ?_, back_, default, begun_nil default⟩
        rw [encodeAll_cons, is, List.append_nil]
        exact (List.append_nil _).symm
      · refine ⟨[], first :: others, front, rfl, rfl, ?_, first, tail, none_, is⟩
        rw [encodeAll_cons, back_, is, List.append_assoc, List.append_assoc]
    · obtain ⟨early, late, between, rfl, tail_, more, begun'⟩ := ih others_.symm
      refine ⟨first :: early, late, between, rfl, ?_, more, begun'⟩
      rw [encodeAll_cons, is, tail_, List.append_assoc]

/-- The readings of bytes do not depend on the fragments they are cut into. -/
theorem reads_bytes_iff {pieces : List Bytes} : Reads (pieces.map .bytes) word pending ↔
    ∃ characters, pieces.flatten = encodeAll characters ++ pending ∧ word = characters.map .character ∧
      ∃ character, Begun pending character := by
  induction pieces using List.reverseRecOn generalizing word pending with
  | nil =>
    constructor
    · intro reads
      generalize none_ : ([] : List Bytes).map Fragment.bytes = fragments at reads
      cases reads with
      | start => exact ⟨[], rfl, rfl, default, begun_nil default⟩
      | step => exact absurd none_ (by simp)
    · rintro ⟨characters, whole, rfl, -⟩
      obtain ⟨none_, rfl⟩ := List.append_eq_nil_iff.mp whole.symm
      rw [encodeAll_eq_nil none_]
      exact .start
  | append_singleton pieces piece ih =>
    rw [List.map_append, List.map_singleton, List.flatten_append, List.flatten_singleton, Reads.concat_iff]
    constructor
    · rintro ⟨before, waiting, earlier, goes⟩
      obtain ⟨characters, whole, rfl, -⟩ := ih.mp earlier
      cases goes with
      | @text bytes others rest character is more begun =>
        cases is
        refine ⟨characters ++ others, ?_, List.map_append.symm, character, begun⟩
        rw [whole, List.append_assoc, more, encodeAll_append, List.append_assoc]
      | terminal is => cases is
    · rintro ⟨characters, whole, rfl, character, begun⟩
      obtain ⟨early, late, between, rfl, front, more, begun'⟩ := encodeAll_cut ⟨character, begun⟩ whole
      rw [List.map_append]
      exact ⟨_, between, ih.mpr ⟨early, front, rfl, begun'⟩, .text rfl more begun⟩

end Readings

section Branches

variable {grammar : Grammar} {matcher : GrammarMatcher} {branch after : MatchBranch} {order : IterationOrder}
  {fragment : Fragment} {fragments : List Fragment}

/-- A branch after a fragment, by the fragment's characters or by its token. -/
def MatchBranch.Becomes (grammar : Grammar) (order : IterationOrder) (branch : MatchBranch) (fragment : Fragment)
    (after : MatchBranch) : Prop :=
  (∃ bytes, fragment.text = some bytes ∧ branch.acceptBytes grammar order bytes = .ok after) ∨
    (branch.pendingUtf8 = [] ∧ ∃ token bytes, fragment = .token token bytes ∧
      branch.acceptTokenTerminal grammar order token bytes = .ok after)

namespace GrammarMatcher

theorem mem_keep (accepted : List MatchBranch) (answer : Except String MatchBranch) :
    after ∈ keep accepted answer ↔ after ∈ accepted ∨ answer = .ok after := by
  cases answer with
  | error failure => simp [keep]
  | ok branch =>
    by_cases known : branch ∈ accepted
    · rw [keep, if_pos known]
      exact ⟨.inl, fun either => either.elim id fun is => by cases is; exact known⟩
    · rw [keep, if_neg known, List.mem_append, List.mem_singleton, Except.ok.injEq, @eq_comm _ after branch]

theorem mem_foldl {step : List MatchBranch → MatchBranch → List MatchBranch} {yields : MatchBranch → MatchBranch → Prop}
    (steps : ∀ accepted branch after, after ∈ step accepted branch ↔ after ∈ accepted ∨ yields branch after)
    (branches accepted : List MatchBranch) :
    after ∈ branches.foldl step accepted ↔ after ∈ accepted ∨ ∃ branch ∈ branches, yields branch after := by
  induction branches generalizing accepted with
  | nil => simp
  | cons branch branches ih =>
    rw [List.foldl_cons, ih, steps, or_assoc]
    simp only [List.exists_mem_cons_iff]

/-- The branches of a matcher that are accepted are what its branches become. -/
theorem feed_eq (matcher : GrammarMatcher) (order : IterationOrder) (fragment : Fragment) :
    ∃ accepted rejected, matcher.feed order fragment = matcher.continueWith accepted rejected ∧
      ∀ after, after ∈ accepted ↔ ∃ branch ∈ matcher.branches, branch.Becomes matcher.grammar order fragment after := by
  cases fragment with
  | bytes bytes =>
    refine ⟨_, _, rfl, fun after => ?_⟩
    rw [mem_foldl fun accepted branch after => mem_keep accepted (branch.acceptBytes matcher.grammar order bytes)]
    simp [MatchBranch.Becomes, Fragment.text]
  | token token bytes =>
    refine ⟨_, _, rfl, fun after => ?_⟩
    have steps : ∀ (accepted : List MatchBranch) (branch after : MatchBranch), (after ∈
        (let accepted := if branch.pendingUtf8.isEmpty then
            keep accepted (branch.acceptTokenTerminal matcher.grammar order token bytes) else accepted
          if !bytes.isEmpty then keep accepted (branch.acceptBytes matcher.grammar order bytes) else accepted)) ↔
        after ∈ accepted ∨ branch.Becomes matcher.grammar order (.token token bytes) after := by
      intro accepted branch after
      by_cases waiting : branch.pendingUtf8 = [] <;> by_cases empty : bytes = [] <;>
        simp [MatchBranch.Becomes, Fragment.text, waiting, empty, mem_keep, or_comm, or_left_comm]
    rw [mem_foldl steps]
    simp

theorem continueWith_cases (matcher : GrammarMatcher) (accepted : List MatchBranch) (rejected : String) :
    (accepted = [] ∧ matcher.continueWith accepted rejected = (.error rejected, matcher)) ∨
      (accepted ≠ [] ∧ matcher.continueWith accepted rejected = (.ok (), { matcher with branches := accepted })) := by
  cases accepted with
  | nil => exact .inl ⟨rfl, rfl⟩
  | cons branch branches => exact .inr ⟨List.cons_ne_nil _ _, rfl⟩

/-- What feeding a fragment does: it is accepted where some branch becomes another, and else nothing changes. -/
theorem feed_cases (matcher : GrammarMatcher) (order : IterationOrder) (fragment : Fragment) :
    (∃ accepted, matcher.feed order fragment = (.ok (), { matcher with branches := accepted }) ∧ accepted ≠ [] ∧
        ∀ after, after ∈ accepted ↔ ∃ branch ∈ matcher.branches, branch.Becomes matcher.grammar order fragment after) ∨
      ((∃ failure, matcher.feed order fragment = (.error failure, matcher)) ∧
        ∀ branch ∈ matcher.branches, ∀ after, ¬branch.Becomes matcher.grammar order fragment after) := by
  obtain ⟨accepted, rejected, is, members⟩ := matcher.feed_eq order fragment
  rcases matcher.continueWith_cases accepted rejected with ⟨rfl, result⟩ | ⟨some_, result⟩
  · refine .inr ⟨⟨rejected, is.trans result⟩, fun branch member after becomes => ?_⟩
    exact List.not_mem_nil ((members after).mpr ⟨branch, member, becomes⟩)
  · exact .inl ⟨accepted, is.trans result, some_, members⟩

end GrammarMatcher

namespace MatchBranch

variable {word : List Input}

/-- What a branch becomes has read what the fragment adds. -/
theorem Has.of_becomes (formed : grammar.Formed) (has : branch.Has grammar word)
    (becomes : branch.Becomes grammar order fragment after) :
    ∃ word', Goes word branch.pendingUtf8 fragment word' after.pendingUtf8 ∧ grammar.Takes word' after.pendingUtf8 ∧
      after.Has grammar word' := by
  rcases becomes with ⟨bytes, is, accepted⟩ | ⟨none_, token, bytes, rfl, accepted⟩
  · rcases has.acceptBytes formed order bytes with ⟨characters, rest, whole, takes, _, run, next, rfl⟩ | ⟨-, _, run⟩
    · cases run.symm.trans accepted
      obtain ⟨character, begun⟩ := takes.begun
      exact ⟨_, .text is whole begun, takes, next⟩
    · cases run.symm.trans accepted
  · rcases has.acceptTokenTerminal formed order token bytes with ⟨starts, _, run, next, same⟩ | ⟨-, _, run⟩
    · cases run.symm.trans accepted
      rw [none_] at same
      rw [same]
      exact ⟨_, .terminal rfl none_, .inl ⟨rfl, starts⟩, next⟩
    · cases run.symm.trans accepted

/-- A branch becomes one for each way on that the grammar takes. -/
theorem Has.becomes (formed : grammar.Formed) (has : branch.Has grammar word) (order : IterationOrder) {word' : List Input}
    {rest : Bytes} (goes : Goes word branch.pendingUtf8 fragment word' rest) (takes : grammar.Takes word' rest) :
    ∃ after, branch.Becomes grammar order fragment after ∧ after.Has grammar word' ∧ after.pendingUtf8 = rest := by
  cases goes with
  | @text bytes characters _ _ is whole begun =>
    rcases has.acceptBytes formed order bytes with ⟨characters', rest', whole', takes', after, run, next,
      same⟩ | ⟨refused, -⟩
    · obtain ⟨rfl, rfl⟩ := encodeAll_append_inj takes.stuck takes'.stuck (whole.symm.trans whole')
      exact ⟨after, .inl ⟨bytes, is, run⟩, next, same⟩
    · exact absurd takes (refused characters rest whole)
  | @terminal input is none_ =>
    cases fragment with
    | bytes bytes => cases is
    | token token bytes =>
      cases is
      rcases has.acceptTokenTerminal formed order token bytes with ⟨-, after, run, next, same⟩ | ⟨refused, -⟩
      · exact ⟨after, .inr ⟨none_, token, bytes, rfl, run⟩, next, same.trans none_⟩
      · exact absurd takes.starts refused

end MatchBranch

/-- A matcher that was fed some fragments: its branches are the readings that the grammar takes. -/
structure GrammarMatcher.Stands (matcher : GrammarMatcher) (grammar : Grammar) (fragments : List Fragment) : Prop where
  same : matcher.grammar = grammar
  some_ : matcher.branches ≠ []
  reads : ∀ branch ∈ matcher.branches, ∃ word, Reads fragments word branch.pendingUtf8 ∧
    grammar.Takes word branch.pendingUtf8 ∧ branch.Has grammar word
  branch : ∀ word pending, Reads fragments word pending → grammar.Takes word pending →
    ∃ branch ∈ matcher.branches, branch.Has grammar word ∧ branch.pendingUtf8 = pending

namespace GrammarMatcher

theorem new_has (formed : grammar.Formed) (order : IterationOrder) :
    MatchBranch.Has grammar ⟨[close grammar order [] {⟨grammar.startProduction, 0, 0⟩}], []⟩ [] := by
  refine ⟨rfl, fun position within item => ?_, ⟨[], [.nonterminal grammar.root], .refl _, .nil⟩⟩
  obtain rfl := Nat.le_zero.mp within
  rw [List.getD_cons_zero]
  have before : Closure.Before grammar [] [] := fun position inside => absurd inside (Nat.not_lt_zero position)
  refine mem_close formed before ?_ ?_ ?_
  · intro item member
    rw [Finset.mem_singleton.mp member]
    exact .start
  · exact fun _ => Finset.mem_singleton_self _
  · exact fun position _ _ _ _ here => absurd here.symm (Nat.succ_ne_zero position)

theorem new_stands (formed : grammar.Formed) (order : IterationOrder) : (new grammar order).Stands grammar [] := by
  have has := new_has formed order
  refine ⟨rfl, List.cons_ne_nil _ _, fun branch member => ?_, fun word pending reads takes => ?_⟩
  · obtain rfl := List.mem_singleton.mp member
    exact ⟨[], .start, .inl ⟨rfl, has.starts⟩, has⟩
  · generalize none_ : ([] : List Fragment) = fragments at reads
    cases reads with
    | start => exact ⟨_, List.mem_singleton_self _, has, rfl⟩
    | step => exact absurd none_ (by simp)

/-- The readings behind a fragment are those that branches go on with. -/
theorem Stands.before (stands : matcher.Stands grammar fragments) {word : List Input} {pending : Bytes}
    (reads : Reads (fragments ++ [fragment]) word pending) (takes : grammar.Takes word pending) :
    ∃ branch ∈ matcher.branches, ∃ before, branch.Has grammar before ∧
      Goes before branch.pendingUtf8 fragment word pending := by
  obtain ⟨before, waiting, earlier, goes⟩ := Reads.concat_iff.mp reads
  obtain ⟨branch, member, has, rfl⟩ := stands.branch before waiting earlier (goes.takes_before earlier.stuck takes)
  exact ⟨branch, member, before, has, goes⟩

/-- A fragment is accepted where some reading of what was fed with it is taken; else nothing changes. -/
theorem Stands.feed (formed : grammar.Formed) (stands : matcher.Stands grammar fragments) (order : IterationOrder)
    (fragment : Fragment) :
    (∃ after, matcher.feed order fragment = (.ok (), after) ∧ after.Stands grammar (fragments ++ [fragment])) ∨
      ((∃ failure, matcher.feed order fragment = (.error failure, matcher)) ∧
        ∀ word pending, Reads (fragments ++ [fragment]) word pending → ¬grammar.Takes word pending) := by
  rcases matcher.feed_cases order fragment with ⟨accepted, result, some_, members⟩ | ⟨result, none_⟩
  · refine .inl ⟨_, result, stands.same, some_, fun after member => ?_, fun word pending reads takes => ?_⟩
    · obtain ⟨branch, among, becomes⟩ := (members after).mp member
      obtain ⟨before, reads, -, has⟩ := stands.reads branch among
      rw [stands.same] at becomes
      obtain ⟨word, goes, takes, next⟩ := has.of_becomes formed becomes
      exact ⟨word, .step reads goes, takes, next⟩
    · obtain ⟨branch, among, before, has, goes⟩ := stands.before reads takes
      obtain ⟨after, becomes, next, same⟩ := has.becomes formed order goes takes
      rw [← stands.same] at becomes
      exact ⟨after, (members after).mpr ⟨branch, among, becomes⟩, next, same⟩
  · refine .inr ⟨result, fun word pending reads takes => ?_⟩
    obtain ⟨branch, among, before, has, goes⟩ := stands.before reads takes
    obtain ⟨after, becomes, -⟩ := has.becomes formed order goes takes
    rw [← stands.same] at becomes
    exact none_ branch among after becomes

theorem Stands.taken (stands : matcher.Stands grammar fragments) :
    ∃ word pending, Reads fragments word pending ∧ grammar.Takes word pending := by
  obtain ⟨branch, member⟩ := List.exists_mem_of_ne_nil _ stands.some_
  obtain ⟨word, reads, takes, -⟩ := stands.reads branch member
  exact ⟨word, _, reads, takes⟩

/-- A run is a run of all but the last fragment, and that one fed to it. -/
theorem run_concat (matcher : GrammarMatcher) (fed : List (IterationOrder × Fragment)) (order : IterationOrder)
    (fragment : Fragment) : matcher.run (fed ++ [(order, fragment)]) =
      (matcher.run fed).bind fun last => last.run [(order, fragment)] := by
  rw [run, List.foldlM_append]
  rfl

theorem run_singleton (matcher : GrammarMatcher) (order : IterationOrder) (fragment : Fragment) :
    matcher.run [(order, fragment)] =
      match matcher.feed order fragment with
      | (.ok (), after) => some after
      | (.error _, _) => none := by
  rw [run, List.foldlM_cons]
  rcases matcher.feed order fragment with ⟨⟨⟩ | ⟨⟩, after⟩ <;> rfl

/-- A run reaches a matcher that stands for what was fed where some reading of it is taken. -/
theorem run_stands (formed : grammar.Formed) (order : IterationOrder) (fed : List (IterationOrder × Fragment)) :
    (∃ last, (new grammar order).run fed = some last ∧ last.Stands grammar (fed.map Prod.snd)) ∨
      ((new grammar order).run fed = none ∧
        ∀ word pending, Reads (fed.map Prod.snd) word pending → ¬grammar.Takes word pending) := by
  induction fed using List.reverseRecOn with
  | nil => exact .inl ⟨_, rfl, new_stands formed order⟩
  | append_singleton fed one ih =>
    obtain ⟨visiting, fragment⟩ := one
    rw [run_concat, List.map_append, List.map_singleton]
    rcases ih with ⟨last, run, stands⟩ | ⟨run, none_⟩
    · rw [run, Option.bind_some, run_singleton]
      rcases stands.feed formed visiting fragment with ⟨after, result, next⟩ | ⟨⟨failure, result⟩, none_⟩
      · rw [result]
        exact .inl ⟨after, rfl, next⟩
      · rw [result]
        exact .inr ⟨rfl, none_⟩
    · rw [run]
      refine .inr ⟨rfl, fun word pending reads takes => ?_⟩
      obtain ⟨before, waiting, earlier, goes⟩ := Reads.concat_iff.mp reads
      exact none_ before waiting earlier (goes.takes_before earlier.stuck takes)

/-- A matcher accepts where a reading without a character that has begun is a word of the root rule. -/
theorem Stands.isAccepting_iff (formed : grammar.Formed) (stands : matcher.Stands grammar fragments) :
    matcher.isAccepting = true ↔ ∃ word, Reads fragments word [] ∧ grammar.Derives grammar.root word := by
  have accepts : ∀ {branch : MatchBranch} {word : List Input}, branch.Has grammar word →
      ((⟨grammar.startProduction, 1, 0⟩ : Item) ∈ branch.frontier ↔ grammar.Derives grammar.root word) := by
    intro branch word has
    rw [has.frontier, Grammar.derives_iff]
    exact charted_start_iff grammar.spells formed.begins formed.starts_root
  simp only [isAccepting, List.any_eq_true, Bool.and_eq_true, List.isEmpty_iff, decide_eq_true_eq, stands.same]
  constructor
  · rintro ⟨branch, member, none_, completed⟩
    obtain ⟨word, reads, -, has⟩ := stands.reads branch member
    rw [none_] at reads
    exact ⟨word, reads, (accepts has).mp completed⟩
  · rintro ⟨word, reads, derives⟩
    have starts : grammar.Starts grammar.root word := by
      obtain ⟨terminals, derives, reading⟩ := derives
      exact ⟨terminals, [], by rwa [List.append_nil], reading⟩
    obtain ⟨branch, member, has, none_⟩ := stands.branch word [] reads (.inl ⟨rfl, starts⟩)
    exact ⟨branch, member, none_, (accepts has).mpr derives⟩

/-- A token is accepted by a token terminal behind the dot of an item of a branch where no character
has begun, or by its bytes. -/
theorem acceptToken_iff (matcher : GrammarMatcher) (order : IterationOrder) (token : UInt32) (bytes : Bytes) :
    (matcher.acceptToken order token bytes).1 = .ok () ↔
      (∃ branch ∈ matcher.branches, branch.pendingUtf8 = [] ∧ ∃ item ∈ branch.frontier, ∃ terminal,
        matcher.grammar.next item = some (.token terminal) ∧ terminal.matches token bytes = true) ∨
      (bytes ≠ [] ∧ (matcher.acceptBytes order bytes).1 = .ok ()) := by
  have accepted_iff : ∀ fragment, (matcher.feed order fragment).1 = .ok () ↔
      ∃ branch ∈ matcher.branches, ∃ after, branch.Becomes matcher.grammar order fragment after := by
    intro fragment
    rcases matcher.feed_cases order fragment with ⟨accepted, result, some_, members⟩ | ⟨⟨failure, result⟩, none_⟩
    · obtain ⟨after, member⟩ := List.exists_mem_of_ne_nil _ some_
      obtain ⟨branch, among, becomes⟩ := (members after).mp member
      exact iff_of_true (by rw [result]) ⟨branch, among, after, becomes⟩
    · refine iff_of_false (by rw [result]; rintro ⟨⟩) ?_
      rintro ⟨branch, among, after, becomes⟩
      exact none_ branch among after becomes
  have terminal_iff : ∀ branch : MatchBranch,
      (∃ after, branch.acceptTokenTerminal matcher.grammar order token bytes = .ok after) ↔
        ∃ item ∈ branch.frontier, ∃ terminal, matcher.grammar.next item = some (.token terminal) ∧
          terminal.matches token bytes = true := by
    intro branch
    rw [MatchBranch.acceptTokenTerminal, MatchBranch.accept]
    by_cases none_ : (branch.frontier.filter fun item =>
        (matcher.grammar.next item).any (Symbol.readsToken token bytes)).image Item.advance = ∅
    · rw [if_pos none_]
      refine iff_of_false (by rintro ⟨_, ⟨⟩⟩) ?_
      rintro ⟨item, member, terminal, next, reads⟩
      rw [Finset.image_eq_empty, Finset.filter_eq_empty_iff] at none_
      exact none_ member (by rw [next]; exact reads)
    · rw [if_neg none_]
      refine iff_of_true ⟨_, rfl⟩ ?_
      obtain ⟨advanced, among⟩ := Finset.nonempty_iff_ne_empty.mpr none_
      obtain ⟨item, kept, -⟩ := Finset.mem_image.mp among
      obtain ⟨member, reading⟩ := Finset.mem_filter.mp kept
      obtain ⟨symbol, next, reads⟩ := (Option.any_eq_true _ _).mp reading
      cases symbol with
      | rule rule => cases reads
      | character chars => cases reads
      | token terminal => exact ⟨item, member, terminal, next, reads⟩
  rw [show matcher.acceptToken order token bytes = matcher.feed order (.token token bytes) from rfl,
    show matcher.acceptBytes order bytes = matcher.feed order (.bytes bytes) from rfl, accepted_iff, accepted_iff]
  simp only [← terminal_iff]
  constructor
  · rintro ⟨branch, among, after, ⟨text, is, accepted⟩ | ⟨none_, _, _, is, accepted⟩⟩
    · rw [Fragment.text] at is
      split at is
      · cases is
      · next some_ =>
        cases is
        exact .inr ⟨some_, branch, among, after, .inl ⟨bytes, rfl, accepted⟩⟩
    · cases is
      exact .inl ⟨branch, among, none_, after, accepted⟩
  · rintro (⟨branch, among, none_, after, accepted⟩ | ⟨some_, branch, among, after, ⟨text, is, accepted⟩ | ⟨-, _, _, is, -⟩⟩)
    · exact ⟨branch, among, after, .inr ⟨none_, token, bytes, rfl, accepted⟩⟩
    · cases is
      exact ⟨branch, among, after, .inl ⟨bytes, if_neg some_, accepted⟩⟩
    · cases is

end GrammarMatcher

end Branches

end Muser.Gbnf
