import Muser.Gbnf.Language
import Mathlib.Data.List.Flatten
import Mathlib.Algebra.BigOperators.Ring.List

/-! # The closure of a chart

Visiting the agenda's items in any order closes the last items of a chart: of an item that is
complete and one that waits for its rule, both at the same position, the one visited later finds the
other. Every item is visited once, so that the agenda runs empty.
-/

namespace Muser.Gbnf

variable {grammar : Grammar} {order : IterationOrder} {chart : List (Finset Item)} {word : List Input}
  {item other : Item} {items : List Item} {closure : Closure}

namespace Closure

section Insert

theorem mem_insert : other ∈ (closure.insert item).items ↔ other = item ∨ other ∈ closure.items := by
  rw [insert]
  split
  · next known => exact ⟨.inr, fun either => either.elim (fun same => same ▸ known) id⟩
  · exact Finset.mem_insert

theorem mem_insert_agenda :
    other ∈ (closure.insert item).agenda ↔ other ∈ closure.agenda ∨ (other = item ∧ item ∉ closure.items) := by
  rw [insert]
  split
  · next known => exact ⟨.inl, fun either => either.elim id fun fresh => absurd known fresh.2⟩
  · next fresh => simp [fresh]

theorem mem_insertAll : other ∈ (closure.insertAll items).items ↔ other ∈ items ∨ other ∈ closure.items := by
  induction items generalizing closure with
  | nil => simp [insertAll]
  | cons first items ih =>
    have later : closure.insertAll (first :: items) = (closure.insert first).insertAll items := rfl
    rw [later, ih, mem_insert, List.mem_cons]
    tauto

/-- Whatever is new to the items is on the agenda. -/
theorem mem_insertAll_agenda : other ∈ (closure.insertAll items).agenda ↔
    other ∈ closure.agenda ∨ (other ∈ items ∧ other ∉ closure.items) := by
  induction items generalizing closure with
  | nil => simp [insertAll]
  | cons first items ih =>
    have later : closure.insertAll (first :: items) = (closure.insert first).insertAll items := rfl
    rw [later, ih, mem_insert_agenda, mem_insert, List.mem_cons]
    by_cases same : other = first
    · subst same
      tauto
    · tauto

/-- How much is left to do, among the items of a finite set: those to visit and those to find. -/
def remaining (possible : Finset Item) (closure : Closure) : ℕ := closure.agenda.length + (possible \ closure.items).card

variable {possible : Finset Item}

theorem remaining_insert (known : item ∈ possible) :
    (closure.insert item).remaining possible = closure.remaining possible := by
  rw [insert]
  split
  · rfl
  · next fresh =>
    have member : item ∈ possible \ closure.items := Finset.mem_sdiff.mpr ⟨known, fresh⟩
    have less : (possible \ Insert.insert item closure.items).card + 1 = (possible \ closure.items).card := by
      rw [Finset.sdiff_insert, Finset.card_erase_of_mem member]
      have := Finset.card_pos.mpr ⟨item, member⟩
      omega
    rw [remaining, remaining, List.length_append, List.length_singleton]
    dsimp only
    omega

theorem remaining_insertAll (known : ∀ item ∈ items, item ∈ possible) :
    (closure.insertAll items).remaining possible = closure.remaining possible := by
  induction items generalizing closure with
  | nil => rfl
  | cons first items ih =>
    have later : closure.insertAll (first :: items) = (closure.insert first).insertAll items := rfl
    rw [later, ih fun item member => known item (List.mem_cons_of_mem _ member),
      remaining_insert (known first List.mem_cons_self)]

end Insert

section Visit

/-- The items that the completion of an item advances. -/
def waiting (grammar : Grammar) (done : Item) (parent : Item) : Prop :=
  grammar.next done = none ∧ grammar.next parent = some (.rule (grammar.production done.production).lhs)

/-- What visiting an item brings on its own. -/
structure Settled (grammar : Grammar) (chart : List (Finset Item)) (closure : Closure) (item : Item) : Prop where
  predicted : ∀ rule, grammar.next item = some (.rule rule) → ∀ candidate ∈ grammar.byLhs.getD rule [],
    (⟨candidate, 0, chart.length⟩ : Item) ∈ closure.items
  completed : item.origin ≠ chart.length → ∀ parent ∈ chart.getD item.origin ∅, waiting grammar item parent →
    parent.advance ∈ closure.items

/-- What two items of the position bring together. -/
def Paired (grammar : Grammar) (chart : List (Finset Item)) (closure : Closure) (done parent : Item) : Prop :=
  done.origin = chart.length → waiting grammar done parent → parent.advance ∈ closure.items

/-- A closure on its way. -/
structure Progress (grammar : Grammar) (chart : List (Finset Item)) (word : List Input) (closure : Closure) : Prop where
  sound : ∀ item ∈ closure.items, grammar.Charted word chart.length item
  known : ∀ item ∈ closure.agenda, item ∈ closure.items
  settled : ∀ item ∈ closure.items, item ∉ closure.agenda → Settled grammar chart closure item
  paired : ∀ done ∈ closure.items, done ∉ closure.agenda → ∀ parent ∈ closure.items, parent ∉ closure.agenda →
    Paired grammar chart closure done parent

theorem Settled.mono {after : Closure} (settled : Settled grammar chart closure item)
    (more : ∀ item ∈ closure.items, item ∈ after.items) : Settled grammar chart after item :=
  ⟨fun rule next candidate member => more _ (settled.predicted rule next candidate member),
    fun earlier parent member waits => more _ (settled.completed earlier parent member waits)⟩

/-- What a visit does: it adds charted items, puts them on the agenda, and settles the item, also
with every item that is there. -/
structure Visited (grammar : Grammar) (chart : List (Finset Item)) (word : List Input) (item : Item)
    (before after : Closure) : Prop where
  more : ∀ other ∈ before.items, other ∈ after.items
  sound : ∀ other ∈ after.items, other ∈ before.items ∨ grammar.Charted word chart.length other
  agenda : ∀ other, other ∈ after.agenda ↔ other ∈ before.agenda ∨ (other ∈ after.items ∧ other ∉ before.items)
  settled : Settled grammar chart after item
  done : ∀ parent ∈ before.items, Paired grammar chart after item parent
  parent : ∀ done ∈ before.items, Paired grammar chart after done item

/-- The items charted before a position. -/
def Before (grammar : Grammar) (word : List Input) (chart : List (Finset Item)) : Prop :=
  ∀ position < chart.length, ∀ item, item ∈ chart.getD position ∅ ↔ grammar.Charted word position item

/-- Visiting an item at a terminal does nothing. -/
theorem visited_terminal {symbol : Symbol} (next : grammar.next item = some symbol)
    (terminal : ∀ rule, symbol ≠ .rule rule) : Visited grammar chart word item closure closure := by
  refine ⟨fun _ => id, fun _ => .inl, fun other => by tauto, ⟨fun rule is => ?_, fun _ _ _ waits => ?_⟩,
    fun _ _ _ waits => ?_, fun _ _ _ waits => ?_⟩
  · exact absurd (Option.some.inj (next.symm.trans is)) (terminal rule)
  · cases next.symm.trans waits.1
  · cases next.symm.trans waits.1
  · exact absurd (Option.some.inj (next.symm.trans waits.2)) (terminal _)

/-- Visiting a complete item advances the items that wait for it, as far as they are known. -/
theorem visited_complete (formed : grammar.Formed) (before : Before grammar word chart)
    (sound : ∀ item ∈ closure.items, grammar.Charted word chart.length item) (member : item ∈ closure.items)
    (next : grammar.next item = none) :
    Visited grammar chart word item closure (visit grammar order chart item closure) := by
  have charted := sound item member
  have holds := (formed.holds charted).2
  have parents : ∀ other, other ∈ ((order.list chart (some item) (if item.origin = chart.length then closure.items else
        chart.getD item.origin ∅)).filter fun parent =>
          grammar.next parent = some (.rule (grammar.production item.production).lhs)).map Item.advance ↔
      ∃ parent, (if item.origin = chart.length then parent ∈ closure.items else parent ∈ chart.getD item.origin ∅) ∧
        grammar.next parent = some (.rule (grammar.production item.production).lhs) ∧ parent.advance = other := by
    intro other
    simp only [List.mem_map, List.mem_filter, order.mem_list, decide_eq_true_eq, and_assoc]
    split <;> rfl
  simp only [visit, next]
  refine ⟨fun other old => mem_insertAll.mpr (.inr old), fun other new => ?_, fun other => ?_, ⟨?_, ?_⟩, ?_, ?_⟩
  · rcases mem_insertAll.mp new with found | old
    · right
      obtain ⟨parent, there, waits, rfl⟩ := (parents other).mp found
      apply formed.complete _ waits charted ((formed.next_eq_none_iff charted).mp next)
      split at there
      · next here => exact here ▸ sound parent there
      · next elsewhere =>
        have ordered := holds.ordered
        exact (before item.origin (by omega) parent).mp there
    · exact .inl old
  · rw [mem_insertAll_agenda, mem_insertAll]
    tauto
  · intro rule is
    cases next.symm.trans is
  · intro earlier parent there waits
    exact mem_insertAll.mpr (.inl ((parents _).mpr ⟨parent, by rwa [if_neg earlier], waits.2, rfl⟩))
  · intro parent there here waits
    exact mem_insertAll.mpr (.inl ((parents _).mpr ⟨parent, by rwa [if_pos here], waits.2, rfl⟩))
  · intro done _ _ waits
    cases next.symm.trans waits.2

/-- Visiting an item at a rule predicts it, and passes it where it is complete already. -/
theorem visited_rule (formed : grammar.Formed)
    (sound : ∀ item ∈ closure.items, grammar.Charted word chart.length item) (member : item ∈ closure.items) {rule : ℕ}
    (next : grammar.next item = some (.rule rule)) :
    Visited grammar chart word item closure (visit grammar order chart item closure) := by
  have charted := sound item member
  obtain ⟨predicted, predictedEq⟩ : ∃ predicted, predicted =
    closure.insertAll ((grammar.byLhs.getD rule []).map fun candidate => ⟨candidate, 0, chart.length⟩) := ⟨_, rfl⟩
  have candidates : ∀ other, other ∈ predicted.items ↔
      (∃ candidate ∈ grammar.byLhs.getD rule [], (⟨candidate, 0, chart.length⟩ : Item) = other) ∨ other ∈ closure.items := by
    intro other
    rw [predictedEq, mem_insertAll, List.mem_map]
  have predictedSound : ∀ other ∈ predicted.items, grammar.Charted word chart.length other := by
    intro other there
    rcases (candidates other).mp there with ⟨candidate, known, rfl⟩ | old
    · exact formed.predict charted next known
    · exact sound other old
  have agenda : ∀ other, other ∈ predicted.agenda ↔
      other ∈ closure.agenda ∨ (other ∈ predicted.items ∧ other ∉ closure.items) := by
    intro other
    rw [predictedEq, mem_insertAll_agenda, mem_insertAll]
    tauto
  simp only [visit, next]
  rw [← predictedEq]
  have first : ∀ candidate ∈ grammar.byLhs.getD rule [], (⟨candidate, 0, chart.length⟩ : Item) ∈ predicted.items :=
    fun candidate known => (candidates _).mpr (.inl ⟨candidate, known, rfl⟩)
  split
  · next nullable =>
    obtain ⟨done, there, here, same, end_⟩ := nullable
    have advanced : grammar.Charted word chart.length item.advance := by
      apply formed.complete _ (by rw [same]; exact next) (predictedSound done there) end_
      rw [here]
      exact charted
    refine ⟨fun other old => mem_insert.mpr (.inr ((candidates other).mpr (.inr old))), fun other new => ?_, fun other => ?_,
      ⟨fun rule' is candidate known => ?_, fun _ _ _ waits => ?_⟩, fun _ _ _ waits => ?_, fun _ _ _ _ => ?_⟩
    · rcases mem_insert.mp new with rfl | old
      · exact .inr advanced
      · exact .inr (predictedSound other old)
    · rw [mem_insert_agenda, mem_insert, agenda]
      by_cases same : other = item.advance
      · subst same
        have kept : item.advance ∈ closure.items → item.advance ∈ predicted.items :=
          fun old => (candidates _).mpr (.inr old)
        tauto
      · tauto
    · cases next.symm.trans is
      exact mem_insert.mpr (.inr (first candidate known))
    · cases next.symm.trans waits.1
    · cases next.symm.trans waits.1
    · exact mem_insert.mpr (.inl rfl)
  · next none_ =>
    refine ⟨fun other old => (candidates other).mpr (.inr old), fun other new => .inr (predictedSound other new), agenda,
      ⟨fun rule' is candidate known => ?_, fun _ _ _ waits => ?_⟩, fun _ _ _ waits => ?_, fun done there here waits => ?_⟩
    · cases next.symm.trans is
      exact first candidate known
    · cases next.symm.trans waits.1
    · cases next.symm.trans waits.1
    · refine absurd ⟨done, (candidates done).mpr (.inr there), here, ?_, ?_⟩ none_
      · have same := waits.2
        rw [next] at same
        cases same
        rfl
      · exact (formed.next_eq_none_iff (sound done there)).mp waits.1

variable (order closure) in
theorem visited (formed : grammar.Formed) (before : Before grammar word chart)
    (sound : ∀ item ∈ closure.items, grammar.Charted word chart.length item) (member : item ∈ closure.items) :
    Visited grammar chart word item closure (visit grammar order chart item closure) := by
  cases next : grammar.next item with
  | none => exact visited_complete formed before sound member next
  | some symbol =>
    cases symbol with
    | rule rule => exact visited_rule formed sound member next
    | character chars =>
      simp only [visit, next]
      exact visited_terminal next nofun
    | token terminal =>
      simp only [visit, next]
      exact visited_terminal next nofun

variable {agenda : List Item} {possible : Finset Item}

variable (order) in
/-- One visit keeps the closure on its way. -/
theorem Progress.visit (formed : grammar.Formed) (before : Before grammar word chart)
    (progress : Progress grammar chart word closure) (is : closure.agenda = item :: agenda) :
    Progress grammar chart word (Closure.visit grammar order chart item { closure with agenda := agenda }) := by
  have member : item ∈ closure.items := progress.known item (is ▸ List.mem_cons_self)
  have visited := visited order { closure with agenda := agenda } formed before progress.sound member
  generalize Closure.visit grammar order chart item { closure with agenda := agenda } = after at visited
  obtain ⟨more, sound, onAgenda, settled, done, parent⟩ := visited
  dsimp only at more sound onAgenda done parent
  -- What is off the agenda now was off it before, or is the item.
  have old : ∀ other ∈ after.items, other ∉ after.agenda →
      other ∈ closure.items ∧ (other = item ∨ other ∉ closure.agenda) := by
    intro other there off
    rw [onAgenda] at off
    rw [is, List.mem_cons]
    tauto
  refine ⟨fun other new => (sound other new).elim (progress.sound other) id, fun other on => ?_, fun other there off => ?_,
    fun first there off second there' off' => ?_⟩
  · rcases (onAgenda other).mp on with rest | new
    · exact more other (progress.known other (is ▸ List.mem_cons_of_mem _ rest))
    · exact new.1
  · obtain ⟨known, rfl | before⟩ := old other there off
    · exact settled
    · exact (progress.settled other known before).mono more
  · obtain ⟨known, rfl | before⟩ := old first there off
    · exact done second (old second there' off').1
    · obtain ⟨known', rfl | before'⟩ := old second there' off'
      · exact parent first known
      · exact fun here waits => more _ (progress.paired first known before second known' before' here waits)

variable (grammar order chart) in
/-- A visit that finds only possible items takes one from what is left to do. -/
theorem remaining_visit (is : closure.agenda = item :: agenda)
    (known : ∀ other ∈ (Closure.visit grammar order chart item { closure with agenda := agenda }).items, other ∈ possible) :
    (Closure.visit grammar order chart item { closure with agenda := agenda }).remaining possible + 1 =
      closure.remaining possible := by
  have popped : ({ closure with agenda := agenda } : Closure).remaining possible + 1 = closure.remaining possible := by
    rw [remaining, remaining, is, List.length_cons]
    dsimp only
    omega
  rw [← popped]
  congr 1
  unfold Closure.visit at known ⊢
  dsimp only at known ⊢
  split
  · next rule next =>
    rw [next] at known
    dsimp only at known
    split
    · next nullable =>
      rw [if_pos nullable] at known
      rw [remaining_insert (known _ (mem_insert.mpr (.inl rfl))),
        remaining_insertAll fun other member => known other (mem_insert.mpr (.inr (mem_insertAll.mpr (.inl member))))]
    · next none_ =>
      rw [if_neg none_] at known
      exact remaining_insertAll fun other member => known other (mem_insertAll.mpr (.inl member))
  · rfl
  · rfl
  · next next =>
    rw [next] at known
    exact remaining_insertAll fun other member => known other (mem_insertAll.mpr (.inl member))

variable (order) in
/-- With as many steps as there are possible items the agenda runs empty. -/
theorem run_spec (formed : grammar.Formed) (before : Before grammar word chart)
    (all : ∀ item, grammar.Charted word chart.length item → item ∈ possible) {steps : ℕ}
    (progress : Progress grammar chart word closure) (enough : closure.remaining possible ≤ steps) :
    Progress grammar chart word (run grammar order chart steps closure) ∧
      (run grammar order chart steps closure).agenda = [] ∧
      ∀ item ∈ closure.items, item ∈ (run grammar order chart steps closure).items := by
  induction steps generalizing closure with
  | zero =>
    rw [remaining, Nat.le_zero, Nat.add_eq_zero_iff] at enough
    exact ⟨progress, List.length_eq_zero_iff.mp enough.1, fun _ => id⟩
  | succ steps ih =>
    rw [run]
    cases is : closure.agenda with
    | nil => exact ⟨progress, is, fun _ => id⟩
    | cons item agenda =>
      dsimp only
      have next := progress.visit order formed before is
      have member : item ∈ closure.items := progress.known item (is ▸ List.mem_cons_self)
      have visited := visited order { closure with agenda := agenda } formed before progress.sound member
      have left := remaining_visit grammar order chart is
        fun other there => all other (next.sound other there)
      obtain ⟨last, empty, more⟩ := ih next (by omega)
      exact ⟨last, empty, fun other there => more other (visited.more other there)⟩

end Visit

end Closure

section Possible

/-- The items of a grammar at the origins up to a position. -/
def possibleItems (grammar : Grammar) (position : ℕ) : List Item :=
  grammar.productions.zipIdx.flatMap fun entry =>
    (List.range (entry.1.rhs.length + 1)).flatMap fun dot =>
      (List.range (position + 1)).map fun origin => ⟨entry.2, dot, origin⟩

theorem length_possibleItems (grammar : Grammar) (position : ℕ) :
    (possibleItems grammar position).length = grammar.itemCount * (position + 1) := by
  have each : ∀ entry : Production × ℕ, ((List.range (entry.1.rhs.length + 1)).flatMap fun dot =>
      (List.range (position + 1)).map fun origin => (⟨entry.2, dot, origin⟩ : Item)).length =
        (entry.1.rhs.length + 1) * (position + 1) := by
    intro entry
    simp [List.length_flatMap]
  have whole : (grammar.productions.zipIdx.map fun entry => (entry.1.rhs.length + 1) * (position + 1)) =
      grammar.productions.map fun production => (production.rhs.length + 1) * (position + 1) := by
    conv_rhs => rw [← List.zipIdx_map_fst 0 grammar.productions, List.map_map]
    rfl
  rw [possibleItems, List.length_flatMap, Grammar.itemCount, ← List.sum_map_mul_right, ← whole]
  simp only [each]

theorem mem_possibleItems (formed : grammar.Formed) {position : ℕ} (charted : grammar.Charted word position item) :
    item ∈ possibleItems grammar position := by
  obtain ⟨inside, holds⟩ := formed.holds charted
  have dot := holds.inside
  rw [Production.toRule, List.length_map] at dot
  have origin := holds.ordered
  refine List.mem_flatMap.mpr ⟨(grammar.production item.production, item.production), ?_, ?_⟩
  · rw [List.mem_zipIdx_iff_getElem?, Grammar.production, List.getD_eq_getElem _ _ inside]
    exact List.getElem?_eq_getElem inside
  · dsimp only
    refine List.mem_flatMap.mpr ⟨item.dot, List.mem_range.mpr (by omega), ?_⟩
    exact List.mem_map.mpr ⟨item.origin, List.mem_range.mpr (by omega), rfl⟩

end Possible

section Close

/-- The symbol of an item that a symbol of the context-free grammar is. -/
theorem Grammar.next_of_toCf (item : Item) {rule : ContextFreeRule Terminal ℕ} {symbol : ContextFree.CfSymbol Terminal ℕ}
    (known : grammar.rules item.production = some rule) (next : rule.output[item.dot]? = some symbol) :
    ∃ found, grammar.next item = some found ∧ found.toCf = symbol := by
  obtain ⟨inside, rfl⟩ := Grammar.rules_eq_some known
  rw [Grammar.next_toCf] at next
  exact Option.map_eq_some_iff.mp next

theorem Symbol.toCf_eq_nonterminal {symbol : Symbol} {rule : ℕ} (is : symbol.toCf = .nonterminal rule) :
    symbol = .rule rule := by
  cases symbol with
  | rule other =>
    cases is
    rfl
  | character chars => cases is
  | token terminal => cases is

/-- A closure whose agenda is empty has every item charted at its position. -/
theorem Closure.Progress.all (formed : grammar.Formed) (before : Closure.Before grammar word chart)
    (progress : Closure.Progress grammar chart word closure) (off : ∀ item, item ∉ closure.agenda)
    (starts : chart.length = 0 → (⟨grammar.startProduction, 0, 0⟩ : Item) ∈ closure.items)
    (scans : ∀ position item symbol terminal input, chart.length = position + 1 → grammar.Charted word position item →
      grammar.next item = some symbol → symbol.toCf = .terminal terminal → word[position]? = some input →
      terminal.Reads input → item.advance ∈ closure.items) {position production dot origin : ℕ}
    (charted : Earley.Charted (g := grammar.contextFree) grammar.rules Terminal.Reads word grammar.startProduction position
      production dot origin) :
    position = chart.length → (⟨production, dot, origin⟩ : Item) ∈ closure.items := by
  induction charted with
  | start => exact fun zero => starts zero.symm
  | @scan position production dot origin rule terminal input item known next ahead reading _ =>
    intro here
    obtain ⟨symbol, found, is⟩ := Grammar.next_of_toCf ⟨production, dot, origin⟩ known next
    exact scans position ⟨production, dot, origin⟩ symbol terminal input here.symm item found is ahead reading
  | @predict position production dot origin rule other candidate item known next found ih =>
    rintro rfl
    obtain ⟨symbol, here, is⟩ := Grammar.next_of_toCf ⟨production, dot, origin⟩ known next
    obtain rfl := Symbol.toCf_eq_nonterminal is
    obtain ⟨inside, rfl⟩ := Grammar.rules_eq_some found
    exact (progress.settled _ (ih rfl) (off _)).predicted _ here candidate ((formed.byLhs _ _).mpr ⟨inside, rfl⟩)
  | @complete position middle production dot origin rule other candidate item known next found done ih ih' =>
    rintro rfl
    obtain ⟨symbol, here, is⟩ := Grammar.next_of_toCf ⟨production, dot, origin⟩ known next
    obtain rfl := Symbol.toCf_eq_nonterminal is
    obtain ⟨inside, rfl⟩ := Grammar.rules_eq_some found
    have completed := ih' rfl
    have charted : grammar.Charted word chart.length ⟨candidate,
        (grammar.production candidate).toRule.output.length, middle⟩ :=
      done
    have waits : Closure.waiting grammar ⟨candidate, (grammar.production candidate).toRule.output.length, middle⟩
        ⟨production, dot, origin⟩ := by
      refine ⟨(formed.next_eq_none_iff charted).mpr ?_, here⟩
      rw [Production.toRule, List.length_map]
    rcases Nat.lt_or_eq_of_le (formed.holds charted).2.ordered with earlier | same
    · exact (progress.settled _ completed (off _)).completed earlier.ne _
        ((before middle earlier ⟨production, dot, origin⟩).mpr item) waits
    · exact progress.paired _ completed (off _) _ (ih same) (off _) same waits

/-- Closing the items a position starts with charts all of its items, in whatever order they are visited. -/
theorem mem_close (formed : grammar.Formed) (before : Closure.Before grammar word chart) {items : Finset Item}
    (sound : ∀ item ∈ items, grammar.Charted word chart.length item)
    (starts : chart.length = 0 → (⟨grammar.startProduction, 0, 0⟩ : Item) ∈ items)
    (scans : ∀ position item symbol terminal input, chart.length = position + 1 → grammar.Charted word position item →
      grammar.next item = some symbol → symbol.toCf = .terminal terminal → word[position]? = some input →
      terminal.Reads input → item.advance ∈ items) :
    item ∈ close grammar order chart items ↔ grammar.Charted word chart.length item := by
  have progress : Closure.Progress grammar chart word ⟨items, order.list chart none items⟩ := by
    refine ⟨sound, fun item on => (order.mem_list _ _ _ _).mp on, fun item there off => ?_, fun done there off => ?_⟩
    · exact absurd ((order.mem_list _ _ _ _).mpr there) off
    · exact absurd ((order.mem_list _ _ _ _).mpr there) off
  have all : ∀ item, grammar.Charted word chart.length item → item ∈ (possibleItems grammar chart.length).toFinset :=
    fun item charted => List.mem_toFinset.mpr (mem_possibleItems formed charted)
  have enough : Closure.remaining (possibleItems grammar chart.length).toFinset ⟨items, order.list chart none items⟩ ≤
      grammar.itemCount * (chart.length + 1) := by
    have within : items ⊆ (possibleItems grammar chart.length).toFinset := fun item there => all item (sound item there)
    have listed : (order.list chart none items).toFinset = items := by
      ext item
      rw [List.mem_toFinset, order.mem_list]
    have length := List.toFinset_card_of_nodup (order.nodup chart none items)
    rw [listed] at length
    have bound := List.toFinset_card_le (possibleItems grammar chart.length)
    rw [length_possibleItems] at bound
    rw [Closure.remaining, ← length, ← Finset.card_union_of_disjoint Finset.disjoint_sdiff,
      Finset.union_sdiff_of_subset within]
    exact bound
  obtain ⟨last, empty, more⟩ := Closure.run_spec order formed before all progress enough
  have off : ∀ item, item ∉ (Closure.run grammar order chart (grammar.itemCount * (chart.length + 1))
      ⟨items, order.list chart none items⟩).agenda := by
    intro item
    rw [empty]
    exact List.not_mem_nil
  refine ⟨last.sound item, fun charted => ?_⟩
  exact last.all formed before off (fun zero => more _ (starts zero))
    (fun position item symbol terminal input here charted next is ahead reading =>
      more _ (scans position item symbol terminal input here charted next is ahead reading)) charted rfl

end Close

end Muser.Gbnf
