import Muser.Gbnf.Closure
import Muser.Gbnf.Partial

/-! # What a branch of a matcher stands for

A branch stands for the word it has read: its chart has the items of the word. A character or token
is accepted where the word may go on with it, and bytes are accepted where their characters are and
some character may follow that the rest of them begins.
-/

namespace Muser.Gbnf

open ContextFree Earley Utf8

variable {grammar : Grammar} {order : IterationOrder} {branch : MatchBranch} {word more : List Input} {input : Input}

theorem Grammar.Starts.of_append {rule : ℕ} (starts : grammar.Starts rule (word ++ more)) : grammar.Starts rule word := by
  obtain ⟨terminals, rest, derives, reading⟩ := starts
  refine ⟨terminals.take word.length, (terminals.drop word.length).map .terminal ++ rest, ?_,
    List.forall₂_take_append terminals word more reading⟩
  rwa [← List.append_assoc, ← List.map_append, List.take_append_drop]

theorem Symbol.readsCharacter_iff (character : Char) (symbol : Symbol) : symbol.readsCharacter character.toNat = true ↔
    ∃ terminal, symbol.toCf = .terminal terminal ∧ terminal.Reads (.character character) := by
  cases symbol <;> simp [Symbol.toCf, Symbol.readsCharacter, Terminal.Reads]

theorem Symbol.readsToken_iff (token : UInt32) (bytes : Bytes) (symbol : Symbol) : symbol.readsToken token bytes = true ↔
    ∃ terminal, symbol.toCf = .terminal terminal ∧ terminal.Reads (.token token bytes) := by
  cases symbol <;> simp [Symbol.toCf, Symbol.readsToken, Terminal.Reads]

/-- A branch that has read a word. -/
structure MatchBranch.Has (grammar : Grammar) (branch : MatchBranch) (word : List Input) : Prop where
  length : branch.chart.length = word.length + 1
  charted : ∀ position ≤ word.length, ∀ item, item ∈ branch.chart.getD position ∅ ↔ grammar.Charted word position item
  starts : grammar.Starts grammar.root word

namespace MatchBranch

theorem Has.frontier (has : branch.Has grammar word) (item : Item) :
    item ∈ branch.frontier ↔ grammar.Charted word word.length item := by
  rw [MatchBranch.frontier, List.getLastD_eq_getLast?, List.getLast?_eq_getElem?, has.length, Nat.add_sub_cancel,
    ← List.getD_eq_getElem?_getD]
  exact has.charted word.length le_rfl item

/-- Where a word may go on, an item of the frontier says so. -/
theorem Has.starts_append_iff (formed : grammar.Formed) (has : branch.Has grammar word) (input : Input) :
    grammar.Starts grammar.root (word ++ [input]) ↔
      ∃ item ∈ branch.frontier, ∃ symbol terminal, grammar.next item = some symbol ∧ symbol.toCf = .terminal terminal ∧
        terminal.Reads input := by
  rw [Grammar.starts_iff, ← charted_next_iff grammar.spells formed.begins formed.starts_root
    formed.single_rule]
  constructor
  · rintro ⟨production, dot, origin, rule, terminal, charted, known, next, reading⟩
    obtain ⟨symbol, found, is⟩ := Grammar.next_of_toCf ⟨production, dot, origin⟩ known next
    exact ⟨⟨production, dot, origin⟩, (has.frontier _).mpr charted, symbol, terminal, found, is, reading⟩
  · rintro ⟨item, member, symbol, terminal, found, is, reading⟩
    have charted := (has.frontier item).mp member
    refine ⟨item.production, item.dot, item.origin, _, terminal, charted,
      Grammar.rules_eq (formed.holds charted).1, ?_, reading⟩
    rw [Grammar.next_toCf, found, Option.map_some, is]

/-- Reading an input succeeds where the word may go on with it. -/
theorem Has.accept (formed : grammar.Formed) (has : branch.Has grammar word) {matching : Symbol → Bool} {rejected : String}
    (matches_ : ∀ symbol, matching symbol = true ↔ ∃ terminal, symbol.toCf = .terminal terminal ∧ terminal.Reads input) :
    (grammar.Starts grammar.root (word ++ [input]) ∧ ∃ after, accept grammar order matching rejected branch = .ok after ∧
        after.Has grammar (word ++ [input]) ∧ after.pendingUtf8 = branch.pendingUtf8) ∨
      (¬grammar.Starts grammar.root (word ++ [input]) ∧
        accept grammar order matching rejected branch = .error rejected) := by
  have scanned : ∀ item, item ∈ (branch.frontier.filter fun item => (grammar.next item).any matching).image Item.advance ↔
      ∃ other ∈ branch.frontier, (∃ symbol terminal, grammar.next other = some symbol ∧ symbol.toCf = .terminal terminal ∧
        terminal.Reads input) ∧ other.advance = item := by
    intro item
    simp only [Finset.mem_image, Finset.mem_filter, Option.any_eq_true, matches_, and_assoc]
    constructor
    · rintro ⟨other, member, ⟨symbol, next, terminal, is, reading⟩, rfl⟩
      exact ⟨other, member, ⟨symbol, terminal, next, is, reading⟩, rfl⟩
    · rintro ⟨other, member, ⟨symbol, terminal, next, is, reading⟩, rfl⟩
      exact ⟨other, member, ⟨symbol, next, terminal, is, reading⟩, rfl⟩
  have ahead : (word ++ [input])[word.length]? = some input := by rw [List.getElem?_concat_length]
  have lasting : ∀ position ≤ word.length, ∀ item, grammar.Charted (word ++ [input]) position item ↔
      grammar.Charted word position item := fun position within item => Grammar.charted_append formed within
  rw [MatchBranch.accept]
  generalize (branch.frontier.filter fun item => (grammar.next item).any matching).image Item.advance = next at scanned
  by_cases none : next = ∅
  · refine .inr ⟨fun starts => ?_, if_pos none⟩
    obtain ⟨item, member, reads⟩ := (has.starts_append_iff formed input).mp starts
    have advanced := (scanned item.advance).mpr ⟨item, member, reads, rfl⟩
    rw [none] at advanced
    exact Finset.notMem_empty _ advanced
  · obtain ⟨item, member⟩ := Finset.nonempty_iff_ne_empty.mpr none
    obtain ⟨other, front, reads, rfl⟩ := (scanned item).mp member
    have starts := (has.starts_append_iff formed input).mpr ⟨other, front, reads⟩
    refine .inl ⟨starts, _, if_neg none, ⟨?_, fun position within item => ?_, starts⟩, rfl⟩
    · rw [List.length_append, List.length_singleton, has.length, List.length_append, List.length_singleton]
    · rw [List.length_append, List.length_singleton] at within
      rcases Nat.lt_or_eq_of_le within with earlier | rfl
      · have inside : position < branch.chart.length := by rw [has.length]; exact earlier
        rw [List.getD_append _ _ _ _ inside, has.charted position (Nat.le_of_lt_succ earlier),
          lasting position (Nat.le_of_lt_succ earlier)]
      · rw [← has.length, List.getD_append_right _ _ _ _ le_rfl, Nat.sub_self, List.getD_cons_zero]
        apply mem_close formed
        · intro position inside item
          rw [has.length] at inside
          rw [has.charted position (Nat.le_of_lt_succ inside), lasting position (Nat.le_of_lt_succ inside)]
        · intro item member
          obtain ⟨other, front, ⟨symbol, terminal, next, is, reading⟩, rfl⟩ := (scanned item).mp member
          rw [has.length]
          exact formed.scan ((lasting _ le_rfl _).mpr ((has.frontier other).mp front)) next is ahead reading
        · intro zero
          rw [has.length] at zero
          exact absurd zero (Nat.succ_ne_zero _)
        · intro position item symbol terminal input' here charted next is ahead' reading
          rw [has.length] at here
          obtain rfl : position = word.length := by omega
          cases ahead.symm.trans ahead'
          exact (scanned _).mpr ⟨item, (has.frontier item).mpr ((lasting _ le_rfl _).mp charted),
            ⟨symbol, terminal, next, is, reading⟩, rfl⟩

theorem Has.acceptChar (formed : grammar.Formed) (has : branch.Has grammar word) (order : IterationOrder)
    (character : Char) :
    (grammar.Starts grammar.root (word ++ [.character character]) ∧
        ∃ after, acceptChar grammar order branch character.toNat = .ok after ∧
          after.Has grammar (word ++ [.character character]) ∧ after.pendingUtf8 = branch.pendingUtf8) ∨
      (¬grammar.Starts grammar.root (word ++ [.character character]) ∧
        ∃ failure, acceptChar grammar order branch character.toNat = .error failure) := by
  rcases has.accept formed (Symbol.readsCharacter_iff character) with accepted | ⟨rejected, failure⟩
  · exact .inl accepted
  · exact .inr ⟨rejected, _, failure⟩

theorem Has.acceptTokenTerminal (formed : grammar.Formed) (has : branch.Has grammar word) (order : IterationOrder)
    (token : UInt32) (bytes : Bytes) :
    (grammar.Starts grammar.root (word ++ [.token token bytes]) ∧
        ∃ after, acceptTokenTerminal grammar order branch token bytes = .ok after ∧
          after.Has grammar (word ++ [.token token bytes]) ∧ after.pendingUtf8 = branch.pendingUtf8) ∨
      (¬grammar.Starts grammar.root (word ++ [.token token bytes]) ∧
        ∃ failure, acceptTokenTerminal grammar order branch token bytes = .error failure) := by
  rcases has.accept formed (Symbol.readsToken_iff token bytes) with accepted | ⟨rejected, failure⟩
  · exact .inl accepted
  · exact .inr ⟨rejected, _, failure⟩

/-- Characters are accepted where the word may go on with all of them. -/
theorem Has.acceptChars (formed : grammar.Formed) (has : branch.Has grammar word) (order : IterationOrder)
    (characters : List Char) :
    (grammar.Starts grammar.root (word ++ characters.map .character) ∧
        ∃ after, acceptChars grammar order branch characters = .ok after ∧
          after.Has grammar (word ++ characters.map .character) ∧ after.pendingUtf8 = branch.pendingUtf8) ∨
      (¬grammar.Starts grammar.root (word ++ characters.map .character) ∧
        ∃ failure, acceptChars grammar order branch characters = .error failure) := by
  induction characters generalizing branch word with
  | nil =>
    rw [List.map_nil, List.append_nil]
    exact .inl ⟨has.starts, branch, rfl, has, rfl⟩
  | cons character characters ih =>
    have whole : word ++ (character :: characters).map Input.character =
        (word ++ [.character character]) ++ characters.map .character := by
      rw [List.map_cons, List.append_assoc, List.singleton_append]
    rw [whole, MatchBranch.acceptChars, List.foldlM_cons]
    rcases has.acceptChar formed order character with ⟨_, after, step, next, pending⟩ | ⟨rejected, failure, step⟩
    · rw [step]
      rcases ih next with ⟨starts, last, run, final, same⟩ | ⟨rejected, failure, run⟩
      · exact .inl ⟨starts, last, run, final, same.trans pending⟩
      · exact .inr ⟨rejected, failure, run⟩
    · rw [step]
      exact .inr ⟨fun starts => rejected starts.of_append, failure, rfl⟩

theorem Has.withPending (has : branch.Has grammar word) (pending : Bytes) :
    ({ branch with pendingUtf8 := pending } : MatchBranch).Has grammar word := ⟨has.length, has.charted, has.starts⟩

/-- An interval of characters is accepted where the word may go on with one of them. -/
theorem Has.frontierAcceptsRange (formed : grammar.Formed) (has : branch.Has grammar word) {bytes : Bytes} {lower upper : ℕ}
    (spans : Spans bytes lower upper) : frontierAcceptsRange grammar branch lower upper = true ↔
      ∃ character, Begun bytes character ∧ grammar.Starts grammar.root (word ++ [.character character]) := by
  rw [MatchBranch.frontierAcceptsRange, decide_eq_true_eq]
  have meets_iff : ∀ item ∈ branch.frontier, ∀ chars, grammar.next item = some (.character chars) →
      (chars.intersects lower upper = true ↔ ∃ value, lower ≤ value ∧ value ≤ upper ∧ chars.matches value = true) := by
    intro item member chars next
    have inside := (formed.holds ((has.frontier item).mp member)).1
    refine CharSet.intersects_iff (formed.ordered (grammar.production item.production) ?_ chars ?_) spans.some_
    · rw [Grammar.production, List.getD_eq_getElem _ _ inside]
      exact List.getElem_mem inside
    · exact List.mem_of_getElem? next
  constructor
  · rintro ⟨item, member, found⟩
    simp only [Option.any_eq_true] at found
    obtain ⟨symbol, next, meets⟩ := found
    cases symbol with
    | rule rule => cases meets
    | token terminal => cases meets
    | character chars =>
      obtain ⟨value, low, high, reads⟩ := (meets_iff item member chars next).mp meets
      have same := toNat_ofNat (spans.valid value low high)
      refine ⟨Char.ofNat value, (spans.begun _).mpr ⟨by rwa [same], by rwa [same]⟩, ?_⟩
      refine (has.starts_append_iff formed _).mpr ⟨item, member, .character chars, .character chars, next, rfl, ?_⟩
      rw [Terminal.Reads, same]
      exact reads
  · rintro ⟨character, begun, starts⟩
    obtain ⟨item, member, symbol, terminal, next, is, reading⟩ := (has.starts_append_iff formed _).mp starts
    refine ⟨item, member, ?_⟩
    rw [next, Option.any_some]
    have reads := (Symbol.readsCharacter_iff character symbol).mpr ⟨terminal, is, reading⟩
    cases symbol with
    | rule rule => cases reads
    | token terminal => cases reads
    | character chars =>
      obtain ⟨low, high⟩ := (spans.begun character).mp begun
      exact (meets_iff item member chars next).mpr ⟨character.toNat, low, high, reads⟩

end MatchBranch

/-- The bytes behind a word may be the start of a character that the word may go on with. -/
def Grammar.Takes (grammar : Grammar) (word : List Input) (pending : Bytes) : Prop :=
  (pending = [] ∧ grammar.Starts grammar.root word) ∨
    (pending ≠ [] ∧ ∃ character, Begun pending character ∧ grammar.Starts grammar.root (word ++ [.character character]))

theorem Grammar.Takes.starts {pending : Bytes} (takes : grammar.Takes word pending) : grammar.Starts grammar.root word := by
  rcases takes with ⟨-, starts⟩ | ⟨-, _, -, starts⟩
  · exact starts
  · exact starts.of_append

theorem begun_nil (character : Char) : Begun [] character := ⟨encode character, encode_ne_nil character, rfl⟩

theorem Begun.stuck {bytes : Bytes} {character : Char} (begun : Begun bytes character) : Stuck bytes := by
  obtain ⟨tail, some_, whole⟩ := begun
  intro value rest
  rw [decode_of_encode_eq_append whole some_]
  nofun

theorem Grammar.Takes.stuck {pending : Bytes} (takes : grammar.Takes word pending) : Stuck pending := by
  rcases takes with ⟨rfl, -⟩ | ⟨-, _, begun, -⟩
  · exact stuck_nil
  · exact begun.stuck

namespace MatchBranch

/-- Where the bytes that wait do not decode, they are accepted as the start of a character or not at all. -/
theorem Has.acceptStuck (formed : grammar.Formed) (has : branch.Has grammar word) (order : IterationOrder) {rounds : ℕ}
    {pending : Bytes} (some_ : pending ≠ []) (stuck : Stuck pending) :
    (grammar.Takes word pending ∧ acceptPending grammar order (rounds + 1) { branch with pendingUtf8 := pending } =
        .ok { branch with pendingUtf8 := pending }) ∨
      (¬grammar.Takes word pending ∧
        ∃ failure, acceptPending grammar order (rounds + 1) { branch with pendingUtf8 := pending } = .error failure) := by
  rw [MatchBranch.acceptPending]
  dsimp only
  obtain ⟨characters, rest, reads⟩ := fromUtf8_reads pending
  obtain ⟨whole, stuck'⟩ := reads.stuck
  obtain ⟨rfl, rfl⟩ := encodeAll_append_inj stuck stuck' (show encodeAll [] ++ pending = _ from whole)
  generalize fromUtf8 pending = answer at reads
  cases reads with
  | whole => exact absurd rfl some_
  | malformed _ wrong =>
    refine .inr ⟨?_, _, rfl⟩
    rintro (⟨none, -⟩ | ⟨-, character, ⟨tail, more, is⟩, -⟩)
    · exact some_ none
    · rw [decode_of_encode_eq_append is more] at wrong
      cases wrong
  | truncated _ _ ends =>
    obtain ⟨few, lower, upper, range, spans⟩ := spans_of_truncated some_ ends
    have accepts := (has.withPending pending).frontierAcceptsRange formed spans
    have takes_iff : grammar.Takes word pending ↔
        MatchBranch.frontierAcceptsRange grammar { branch with pendingUtf8 := pending } lower upper = true := by
      rw [accepts, Grammar.Takes]
      simp [some_]
    have none_ : ¬((none : Option ℕ).isSome ∨ 3 < pending.length) := by simpa using few
    rw [takes_iff]
    dsimp only
    rw [if_neg (show ¬0 < (encodeAll []).length from Nat.lt_irrefl 0), if_neg none_, range]
    dsimp only
    cases MatchBranch.frontierAcceptsRange grammar { branch with pendingUtf8 := pending } lower upper with
    | true => exact .inl ⟨rfl, rfl⟩
    | false => exact .inr ⟨Bool.false_ne_true, _, rfl⟩

/-- Bytes are accepted where their characters and what is left of them are. -/
theorem Has.acceptBytes (formed : grammar.Formed) (has : branch.Has grammar word) (order : IterationOrder) (bytes : Bytes) :
    (∃ characters rest, branch.pendingUtf8 ++ bytes = encodeAll characters ++ rest ∧
        grammar.Takes (word ++ characters.map .character) rest ∧
        ∃ after, acceptBytes grammar order branch bytes = .ok after ∧ after.Has grammar (word ++ characters.map .character) ∧
          after.pendingUtf8 = rest) ∨
      ((∀ characters rest, branch.pendingUtf8 ++ bytes = encodeAll characters ++ rest →
          ¬grammar.Takes (word ++ characters.map .character) rest) ∧
        ∃ failure, acceptBytes grammar order branch bytes = .error failure) := by
  rw [MatchBranch.acceptBytes]
  generalize branch.pendingUtf8 ++ bytes = pending
  obtain ⟨characters, rest, reads⟩ := fromUtf8_reads pending
  obtain ⟨whole, stuck⟩ := reads.stuck
  -- There is one way to take the bytes apart.
  have only : ∀ characters' rest', pending = encodeAll characters' ++ rest' →
      grammar.Takes (word ++ characters'.map .character) rest' → grammar.Takes (word ++ characters.map .character) rest := by
    intro characters' rest' is takes
    obtain ⟨rfl, rfl⟩ := encodeAll_append_inj stuck takes.stuck (whole.symm.trans is)
    exact takes
  by_cases none_ : rest = []
  · subst none_
    rw [List.append_nil] at whole
    rw [MatchBranch.acceptPending]
    dsimp only
    rw [whole, fromUtf8_encodeAll]
    rcases (has.withPending []).acceptChars formed order characters with ⟨starts, after, run, next, same⟩ |
      ⟨rejected, failure, run⟩
    · exact .inl ⟨characters, [], (List.append_nil _).symm, .inl ⟨rfl, starts⟩, after, run, next, same⟩
    · refine .inr ⟨fun characters' rest' is takes => ?_, failure, run⟩
      exact rejected (only characters' rest' (whole.trans is) takes).starts
  · have failed : ∃ errorLen, fromUtf8 pending = .error ⟨(encodeAll characters).length, errorLen⟩ := by
      generalize fromUtf8 pending = answer at reads
      cases reads with
      | whole => exact absurd rfl none_
      | truncated => exact ⟨_, rfl⟩
      | malformed => exact ⟨_, rfl⟩
    obtain ⟨errorLen, failed⟩ := failed
    by_cases front : characters = []
    · subst front
      obtain rfl : pending = rest := whole
      rw [List.map_nil, List.append_nil] at only
      rcases has.acceptStuck formed order none_ stuck with ⟨takes, run⟩ | ⟨refused, failure, run⟩
      · refine .inl ⟨[], pending, rfl, ?_, _, run, ?_, rfl⟩
        · rwa [List.map_nil, List.append_nil]
        · rw [List.map_nil, List.append_nil]
          exact has.withPending pending
      · exact .inr ⟨fun characters' rest' is takes => refused (only characters' rest' is takes), failure, run⟩
    · have positive : 0 < (encodeAll characters).length :=
        List.length_pos_of_ne_nil fun empty => front (encodeAll_eq_nil empty)
      obtain ⟨rounds, roundsEq⟩ : ∃ rounds, pending.length = rounds + 1 := by
        refine Nat.exists_eq_succ_of_ne_zero ?_
        rw [whole, List.length_append]
        omega
      have round : MatchBranch.acceptPending grammar order (pending.length + 1) { branch with pendingUtf8 := pending } =
          (MatchBranch.acceptChars grammar order { branch with pendingUtf8 := rest } characters >>=
            MatchBranch.acceptPending grammar order (rounds + 1)) := by
        rw [MatchBranch.acceptPending]
        dsimp only
        rw [failed]
        dsimp only
        rw [if_pos positive, whole, List.take_left, List.drop_left, fromUtf8_encodeAll, ← whole, roundsEq]
        rfl
      rw [round]
      rcases (has.withPending rest).acceptChars formed order characters with
        ⟨starts, ⟨chart, pending'⟩, run, next, same⟩ | ⟨rejected, failure, run⟩
      · obtain rfl : pending' = rest := same
        rw [run]
        rcases next.acceptStuck formed order none_ stuck with ⟨takes, last⟩ | ⟨refused, failure, last⟩
        · exact .inl ⟨characters, pending', whole, takes, _, last, next, rfl⟩
        · exact .inr ⟨fun characters' rest' is takes => refused (only characters' rest' is takes), failure, last⟩
      · rw [run]
        exact .inr ⟨fun characters' rest' is takes => rejected (only characters' rest' is takes).starts, failure, rfl⟩

end MatchBranch

end Muser.Gbnf
