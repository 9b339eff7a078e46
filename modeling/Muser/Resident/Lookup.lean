import Muser.Resident.Radix

/-! # What a lookup finds

The walk of a lookup visits the entries stored at the prefixes of the query, the shortest first, so
the last one it accepts is the deepest that may serve. Besides the access times nothing changes.
-/

namespace Muser.Resident

open Muser.Engine Muser.Radix

/-- An entry up to its access time. -/
def ResidentEntry.untimed (entry : ResidentEntry) : ResidentEntry := { entry with lastAccess := 0 }

/-- The entry after an access. -/
def ResidentEntry.touched (now : ℕ) (entry : ResidentEntry) : ResidentEntry := { entry with lastAccess := now }

/-- An entry of depth `depth` may serve a query of depth `total`. -/
def ResidentEntry.Serves (entry : ResidentEntry) (total maxDepth depth : ℕ) : Prop :=
  depth ≤ maxDepth ∧ (depth = total ∨ entry.ancestorReusable = true)

/-- The deepest of the entries that may serve, or else the best so far. -/
def Deepest (stored : ℕ → ResidentEntry → Prop) (total maxDepth : ℕ) (best answer : Option ResidentHit) : Prop :=
  ((∀ depth entry, stored depth entry → ¬entry.Serves total maxDepth depth) ∧ answer = best) ∨
    ∃ depth entry, stored depth entry ∧ entry.Serves total maxDepth depth ∧
      (∀ other entry', stored other entry' → entry'.Serves total maxDepth other → other ≤ depth) ∧
      answer = some ⟨depth - identityKeyWords, depth == total, entry.snapshot⟩

section Deepest

variable {near far : ℕ → ResidentEntry → Prop} {total maxDepth : ℕ} {best middle answer : Option ResidentHit}

theorem Deepest.of_none (none : ∀ depth entry, near depth entry → ¬entry.Serves total maxDepth depth) :
    Deepest near total maxDepth best best := Or.inl ⟨none, rfl⟩

/-- Shallow entries first, then the deeper ones. -/
theorem Deepest.append (first : Deepest near total maxDepth best middle) (second : Deepest far total maxDepth middle answer)
    (ordered : ∀ depth entry other entry', near depth entry → far other entry' → depth ≤ other) :
    Deepest (fun depth entry => near depth entry ∨ far depth entry) total maxDepth best answer := by
  rcases second with ⟨none, rfl⟩ | ⟨depth, entry, stored, serves, most, rfl⟩
  · rcases first with ⟨none', rfl⟩ | ⟨depth, entry, stored, serves, most, rfl⟩
    · refine Or.inl ⟨?_, rfl⟩
      rintro depth entry (shallow | deep)
      · exact none' depth entry shallow
      · exact none depth entry deep
    · refine Or.inr ⟨depth, entry, Or.inl stored, serves, ?_, rfl⟩
      rintro other entry' (shallow | deep) may
      · exact most other entry' shallow may
      · exact absurd may (none other entry' deep)
  · refine Or.inr ⟨depth, entry, Or.inr stored, serves, ?_, rfl⟩
    rintro other entry' (shallow | deep) may
    · exact ordered other entry' depth entry shallow stored
    · exact most other entry' deep may

end Deepest

/-- The entries stored at the prefixes of what remains of a query, by depth. -/
def StoredAt (node : RadixNode) (remaining : List UInt32) (start depth : ℕ) (entry : ResidentEntry) : Prop :=
  start ≤ depth ∧ depth ≤ start + remaining.length ∧ node.find (remaining.take (depth - start)) = some entry

def StoredUnder (forest : RadixForest) (first : UInt32) (rest : List UInt32) (start depth : ℕ)
    (entry : ResidentEntry) : Prop :=
  start < depth ∧ depth ≤ start + (rest.length + 1) ∧ forest.find first (rest.take (depth - (start + 1))) = some entry

variable {entry : ResidentEntry} {start depth : ℕ}

variable {own : Option ResidentEntry} {children : RadixForest} {edge : List UInt32} {rest : List UInt32}
  {others : RadixForest} {child : RadixNode} {token : UInt32}

/-- The entry of the node itself, and those below. -/
theorem storedAt_nil_iff :
    StoredAt (.mk edge own children) [] start depth entry ↔ depth = start ∧ own = some entry := by
  rw [StoredAt]
  constructor
  · rintro ⟨lower, upper, found⟩
    rw [List.take_nil, Node.find_nil, Node.entry] at found
    exact ⟨by simp at upper; lia, found⟩
  · rintro ⟨rfl, found⟩
    rw [List.take_nil, Node.find_nil, Node.entry]
    exact ⟨le_refl _, by simp, found⟩

theorem storedAt_cons_iff {first : UInt32} :
    StoredAt (.mk edge own children) (first :: rest) start depth entry ↔
      (depth = start ∧ own = some entry) ∨ StoredUnder children first rest start depth entry := by
  rw [StoredAt, StoredUnder]
  constructor
  · rintro ⟨lower, upper, found⟩
    rcases Nat.eq_or_lt_of_le lower with rfl | deeper
    · rw [Nat.sub_self, List.take_zero, Node.find_nil, Node.entry] at found
      exact Or.inl ⟨rfl, found⟩
    · obtain ⟨below, same⟩ : ∃ below, depth - start = below + 1 := ⟨depth - start - 1, by lia⟩
      rw [same, List.take_succ_cons, Node.find_cons, Node.children] at found
      refine Or.inr ⟨deeper, by simpa using upper, ?_⟩
      rwa [show depth - (start + 1) = below by lia]
  · rintro (⟨rfl, found⟩ | ⟨deeper, upper, found⟩)
    · rw [Nat.sub_self, List.take_zero, Node.find_nil, Node.entry]
      exact ⟨le_refl _, by lia, found⟩
    · obtain ⟨below, same⟩ : ∃ below, depth - start = below + 1 := ⟨depth - start - 1, by lia⟩
      rw [same, List.take_succ_cons, Node.find_cons, Node.children]
      rw [show depth - (start + 1) = below by lia] at found
      exact ⟨by lia, by simpa using upper, found⟩

/-- Below a child whose edge the query follows. -/
theorem storedUnder_follow_iff {rest below : List UInt32}
    (head : child.edge.head? = some token) (follows : child.edge ++ below = token :: rest) :
    StoredUnder (.cons token child others) token rest start depth entry ↔
      StoredAt child below (start + child.edge.length) depth entry := by
  obtain ⟨tail, edge⟩ := List.head?_eq_some_iff.mp head
  have length : child.edge.length + below.length = rest.length + 1 := by
    rw [← List.length_append, follows, List.length_cons]
  have positive : 0 < child.edge.length := by rw [edge]; simp
  -- the prefix of the query that ends at `depth`
  have prefix_eq : start < depth →
      token :: rest.take (depth - (start + 1)) = (child.edge ++ below).take (depth - start) := by
    intro deeper
    rw [follows, show depth - start = depth - (start + 1) + 1 by lia, List.take_succ_cons]
  rw [StoredUnder, StoredAt, Forest.find_cons, if_pos rfl]
  constructor
  · rintro ⟨deeper, upper, found⟩
    rw [prefix_eq deeper] at found
    by_cases enough : child.edge.length ≤ depth - start
    · rw [List.take_append, List.take_of_length_le enough, Node.findUnder_append] at found
      refine ⟨by lia, by lia, ?_⟩
      rwa [show depth - (start + child.edge.length) = depth - start - child.edge.length by lia]
    · rw [Node.findUnder_of_not_prefix] at found
      · simp at found
      · intro whole
        have short := whole.length_le
        rw [List.length_take] at short
        lia
  · rintro ⟨lower, upper, found⟩
    have deeper : start < depth := by lia
    refine ⟨deeper, by lia, ?_⟩
    rw [prefix_eq deeper, List.take_append, List.take_of_length_le (by lia), Node.findUnder_append]
    rwa [show depth - start - child.edge.length = depth - (start + child.edge.length) by lia]

/-- Below a child whose edge the query leaves there is nothing on its way. -/
theorem not_storedUnder_of_parts (parts : ¬child.edge <+: token :: rest) :
    ¬StoredUnder (.cons token child others) token rest start depth entry := by
  rintro ⟨-, -, found⟩
  rw [Forest.find_cons, if_pos rfl, Node.findUnder_of_not_prefix] at found
  · simp at found
  · intro whole
    refine parts (whole.trans ?_)
    exact List.cons_prefix_cons.mpr ⟨rfl, List.take_prefix _ _⟩

/-- One node of the walk. -/
theorem serveEntry_deepest (now maxDepth : ℕ) (remaining : List UInt32) (depth : ℕ) (own : Option ResidentEntry)
    (best : Option ResidentHit) :
    Deepest (fun at' entry => at' = depth ∧ own = some entry) (depth + remaining.length) maxDepth best
      (serveEntry now maxDepth remaining depth own best).2 := by
  cases own with
  | none => exact Deepest.of_none (by simp)
  | some entry =>
    have last : (depth = depth + remaining.length) ↔ remaining.isEmpty = true := by
      rw [List.isEmpty_iff_length_eq_zero]
      lia
    rw [serveEntry]
    split
    · next serves =>
      refine Or.inr ⟨depth, entry, ⟨rfl, rfl⟩, ⟨serves.1, ?_⟩, ?_, ?_⟩
      · simpa [last] using serves.2
      · rintro other entry' ⟨rfl, -⟩ -
        exact le_refl _
      · have same : (depth == depth + remaining.length) = remaining.isEmpty := by
          rw [Bool.eq_iff_iff, beq_iff_eq, last]
        rw [same]
    · next refused =>
      refine Deepest.of_none ?_
      rintro other entry' ⟨rfl, same⟩ serves
      cases same
      exact refused ⟨serves.1, by simpa [last] using serves.2⟩

mutual

/-- The walk ends with the deepest stored entry that may serve. -/
theorem longestMatch_deepest (now maxDepth : ℕ) : ∀ {node : RadixNode}, node.Valid →
    ∀ (remaining : List UInt32) (depth : ℕ) (best : Option ResidentHit),
      Deepest (StoredAt node remaining depth) (depth + remaining.length) maxDepth best
        (longestMatch now maxDepth node remaining depth best).2
  | .mk edge own children, valid, remaining, depth, best => by
    rw [Node.Valid] at valid
    have served := serveEntry_deepest now maxDepth remaining depth own best
    cases remaining with
    | nil =>
      have stored : StoredAt (.mk edge own children) [] depth = fun at' entry => at' = depth ∧ own = some entry := by
        ext at' entry
        exact storedAt_nil_iff
      rw [stored, longestMatch]
      simpa using served
    | cons first rest =>
      have stored : StoredAt (.mk edge own children) (first :: rest) depth = fun at' entry =>
          (at' = depth ∧ own = some entry) ∨ StoredUnder children first rest depth at' entry := by
        ext at' entry
        exact storedAt_cons_iff
      have ordered : ∀ at' entry other entry', at' = depth ∧ own = some entry →
          StoredUnder children first rest depth other entry' → at' ≤ other := by
        rintro at' entry other entry' ⟨rfl, -⟩ ⟨deeper, -⟩
        lia
      rw [stored, longestMatch]
      dsimp only
      split
      · -- nothing below the cap may serve
        next capped =>
        refine served.append (Deepest.of_none ?_) ordered
        rintro at' entry ⟨deeper, -⟩ ⟨within, -⟩
        lia
      · refine served.append ?_ ordered
        exact longestMatchUnder_deepest now maxDepth valid first rest depth _

theorem longestMatchUnder_deepest (now maxDepth : ℕ) : ∀ {forest : RadixForest}, forest.Valid →
    ∀ (first : UInt32) (rest : List UInt32) (depth : ℕ) (best : Option ResidentHit),
      Deepest (StoredUnder forest first rest depth) (depth + (rest.length + 1)) maxDepth best
        (longestMatchUnder now maxDepth forest first rest depth best).2
  | .nil, _, first, rest, depth, best => by
    refine Deepest.of_none ?_
    rintro at' entry ⟨-, -, found⟩
    simp [Forest.find] at found
  | .cons token child others, valid, first, rest, depth, best => by
    obtain ⟨head, child_valid, lacks, others_valid⟩ := valid
    rw [longestMatchUnder]
    by_cases same : token = first
    · subst same
      rw [if_pos rfl]
      dsimp only
      by_cases whole : sharedPrefixLen child.edge (token :: rest) = child.edge.length
      · rw [if_pos whole, whole]
        obtain ⟨below, follows⟩ := sharedPrefixLen_eq_length_iff.mp whole
        have stored : StoredUnder (.cons token child others) token rest depth =
            StoredAt child below (depth + child.edge.length) := by
          ext at' entry
          exact storedUnder_follow_iff head follows
        have total : depth + child.edge.length + below.length = depth + (rest.length + 1) := by
          rw [Nat.add_assoc, ← List.length_append, follows, List.length_cons]
        have under := longestMatch_deepest now maxDepth child_valid below (depth + child.edge.length) best
        rw [total] at under
        rwa [stored, ← follows, List.drop_left]
      · rw [if_neg whole]
        refine Deepest.of_none fun at' entry stored => ?_
        exact absurd stored (not_storedUnder_of_parts fun isPrefix => whole (sharedPrefixLen_eq_length_iff.mpr isPrefix))
    · have stored : StoredUnder (.cons token child others) first rest depth = StoredUnder others first rest depth := by
        ext at' entry
        rw [StoredUnder, StoredUnder, Forest.find_cons, if_neg same]
      rw [if_neg same, stored]
      exact longestMatchUnder_deepest now maxDepth others_valid first rest depth best

end

theorem longestMatch_edge (now maxDepth : ℕ) (node : RadixNode) (remaining : List UInt32) (depth : ℕ)
    (best : Option ResidentHit) : (longestMatch now maxDepth node remaining depth best).1.edge = node.edge := by
  obtain ⟨edge, own, children⟩ := node
  cases remaining with
  | nil =>
    rw [longestMatch]
    split <;> rfl
  | cons first rest =>
    rw [longestMatch]
    dsimp only
    split <;> rfl

theorem lacks_longestMatchUnder (now maxDepth : ℕ) : ∀ {forest : RadixForest} {absent : UInt32}, forest.Lacks absent →
    ∀ (first : UInt32) (rest : List UInt32) (depth : ℕ) (best : Option ResidentHit),
      (longestMatchUnder now maxDepth forest first rest depth best).1.Lacks absent
  | .nil, _, _, _, _, _, _ => trivial
  | .cons token child others, absent, lacks, first, rest, depth, best => by
    rw [Forest.Lacks] at lacks
    rw [longestMatchUnder]
    split
    · dsimp only
      split <;> exact lacks
    · exact ⟨lacks.1, lacks_longestMatchUnder now maxDepth lacks.2 first rest depth best⟩

mutual

theorem valid_longestMatch (now maxDepth : ℕ) : ∀ {node : RadixNode}, node.Valid →
    ∀ (remaining : List UInt32) (depth : ℕ) (best : Option ResidentHit),
      (longestMatch now maxDepth node remaining depth best).1.Valid
  | .mk edge own children, valid, remaining, depth, best => by
    rw [Node.Valid] at valid
    cases remaining with
    | nil =>
      rw [longestMatch]
      split <;> exact valid
    | cons first rest =>
      rw [longestMatch]
      dsimp only
      split
      · exact valid
      · exact valid_longestMatchUnder now maxDepth valid first rest depth _

theorem valid_longestMatchUnder (now maxDepth : ℕ) : ∀ {forest : RadixForest}, forest.Valid →
    ∀ (first : UInt32) (rest : List UInt32) (depth : ℕ) (best : Option ResidentHit),
      (longestMatchUnder now maxDepth forest first rest depth best).1.Valid
  | .nil, _, _, _, _, _ => trivial
  | .cons token child others, valid, first, rest, depth, best => by
    obtain ⟨head, child_valid, lacks, others_valid⟩ := valid
    rw [longestMatchUnder]
    split
    · dsimp only
      split
      · exact ⟨by rwa [longestMatch_edge], valid_longestMatch now maxDepth child_valid _ _ _, lacks, others_valid⟩
      · exact ⟨head, child_valid, lacks, others_valid⟩
    · exact ⟨head, child_valid, lacks_longestMatchUnder now maxDepth lacks first rest depth best,
        valid_longestMatchUnder now maxDepth others_valid first rest depth best⟩

end

theorem serveEntry_cases (now maxDepth : ℕ) (remaining : List UInt32) (depth : ℕ) (own : Option ResidentEntry)
    (best : Option ResidentHit) :
    (serveEntry now maxDepth remaining depth own best).1 = own ∨
      (serveEntry now maxDepth remaining depth own best).1 = own.map (ResidentEntry.touched now) := by
  cases own with
  | none => exact Or.inl rfl
  | some entry =>
    rw [serveEntry]
    split
    · exact Or.inr rfl
    · exact Or.inl rfl

mutual

/-- At every key a walk either leaves the entry alone or touches it. -/
theorem find_longestMatch_cases (now maxDepth : ℕ) : ∀ (node : RadixNode) (remaining : List UInt32) (depth : ℕ)
    (best : Option ResidentHit) (key : List UInt32),
      (longestMatch now maxDepth node remaining depth best).1.find key = node.find key ∨
        (longestMatch now maxDepth node remaining depth best).1.find key =
          (node.find key).map (ResidentEntry.touched now)
  | .mk edge own children, remaining, depth, best, key => by
    have served := serveEntry_cases now maxDepth remaining depth own best
    cases remaining with
    | nil =>
      rw [longestMatch]
      cases key with
      | nil => split <;> exact served
      | cons => split <;> exact Or.inl rfl
    | cons first rest =>
      rw [longestMatch]
      dsimp only
      cases key with
      | nil => split <;> exact served
      | cons keyFirst keyRest =>
        split
        · exact Or.inl rfl
        · exact find_longestMatchUnder_cases now maxDepth children first rest depth _ keyFirst keyRest

theorem find_longestMatchUnder_cases (now maxDepth : ℕ) : ∀ (forest : RadixForest) (first : UInt32)
    (rest : List UInt32) (depth : ℕ) (best : Option ResidentHit) (keyFirst : UInt32) (keyRest : List UInt32),
      (longestMatchUnder now maxDepth forest first rest depth best).1.find keyFirst keyRest =
          forest.find keyFirst keyRest ∨
        (longestMatchUnder now maxDepth forest first rest depth best).1.find keyFirst keyRest =
          (forest.find keyFirst keyRest).map (ResidentEntry.touched now)
  | .nil, _, _, _, _, _, _ => Or.inl rfl
  | .cons token child others, first, rest, depth, best, keyFirst, keyRest => by
    rw [longestMatchUnder]
    split
    · dsimp only
      split
      · rw [Forest.find_cons, Forest.find_cons]
        split
        · rw [Node.findUnder, Node.findUnder, longestMatch_edge]
          split
          · exact find_longestMatch_cases now maxDepth child _ _ _ _
          · exact Or.inl rfl
        · exact Or.inl rfl
      · exact Or.inl rfl
    · rw [Forest.find_cons, Forest.find_cons]
      split
      · exact Or.inl rfl
      · exact find_longestMatchUnder_cases now maxDepth others first rest depth best keyFirst keyRest

end

/-- A walk changes access times only. -/
theorem find_longestMatch (now maxDepth : ℕ) (node : RadixNode) (remaining : List UInt32) (depth : ℕ)
    (best : Option ResidentHit) (key : List UInt32) :
    ((longestMatch now maxDepth node remaining depth best).1.find key).map ResidentEntry.untimed =
      (node.find key).map ResidentEntry.untimed := by
  rcases find_longestMatch_cases now maxDepth node remaining depth best key with same | touched
  · rw [same]
  · rw [touched, Option.map_map]
    rfl

end Muser.Resident
