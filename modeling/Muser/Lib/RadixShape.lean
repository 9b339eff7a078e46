import Muser.Lib.Radix

/-! # The shape of radix trees

Every entry of a valid tree is found at some key, so statements about its entries are statements
about the map. A tree is occupied when none of its leaves is without an entry; insertion and pruning
give occupied trees.
-/

namespace Muser.Radix

variable {α β : Type}

section Members

variable [DecidableEq α]

mutual

theorem Node.exists_find_of_mem : ∀ {node : Node α β}, node.Valid → ∀ {entry : β}, entry ∈ node.entries →
    ∃ key, node.find key = some entry
  | .mk edge own children, valid, entry, member => by
    rw [Node.Valid] at valid
    rw [Node.entries] at member
    rcases List.mem_append.mp member with here | below
    · exact ⟨[], by simpa [Node.find_nil, Node.entry] using here⟩
    · obtain ⟨first, rest, found⟩ := Forest.exists_find_of_mem valid below
      exact ⟨first :: rest, found⟩

theorem Forest.exists_find_of_mem : ∀ {forest : Forest α β}, forest.Valid → ∀ {entry : β}, entry ∈ forest.entries →
    ∃ first rest, forest.find first rest = some entry
  | .nil, _, _, member => by simp [Forest.entries] at member
  | .cons token child others, valid, entry, member => by
    obtain ⟨head, child_valid, lacks, others_valid⟩ := valid
    rw [Forest.entries] at member
    rcases List.mem_append.mp member with inside | beside
    · obtain ⟨key, found⟩ := Node.exists_find_of_mem child_valid inside
      obtain ⟨tail, edge⟩ := List.head?_eq_some_iff.mp head
      refine ⟨token, tail ++ key, ?_⟩
      rw [Forest.find_cons, if_pos rfl, ← List.cons_append, ← edge, Node.findUnder_append, found]
    · obtain ⟨first, rest, found⟩ := Forest.exists_find_of_mem others_valid beside
      refine ⟨first, rest, ?_⟩
      rw [Forest.find_cons, if_neg, found]
      rintro rfl
      rw [lacks.find] at found
      cases found

end

/-- The entries of a valid tree are the values of its map. -/
theorem Node.mem_entries_iff {node : Node α β} (valid : node.Valid) {entry : β} :
    entry ∈ node.entries ↔ ∃ key, node.find key = some entry :=
  ⟨Node.exists_find_of_mem valid, fun ⟨_, found⟩ => Node.mem_entries_of_find found⟩

end Members

section Occupied

/-- A node that holds an entry or leads to others. -/
def Node.carries (node : Node α β) : Bool := node.entry.isSome || !node.children.isEmpty

mutual

/-- Below the root every node carries something. -/
def Node.Occupied : Node α β → Prop
  | .mk _ _ children => children.Occupied

def Forest.Occupied : Forest α β → Prop
  | .nil => True
  | .cons _ child others => child.carries = true ∧ child.Occupied ∧ others.Occupied

end

theorem Node.occupied_empty : (Node.empty : Node α β).Occupied := trivial

mutual

/-- Pruning leaves no leaf without an entry. -/
theorem Node.occupied_prune : ∀ node : Node α β, node.prune.Occupied
  | .mk _ _ children => Forest.occupied_prune children

theorem Forest.occupied_prune : ∀ forest : Forest α β, forest.prune.Occupied
  | .nil => trivial
  | .cons _ child others => by
    rw [Forest.prune]
    split
    · next kept => exact ⟨kept, Node.occupied_prune child, Forest.occupied_prune others⟩
    · exact Forest.occupied_prune others

end

theorem Forest.Reorders.isEmpty_eq : ∀ {forest other : Forest α β}, forest.Reorders other →
    other.isEmpty = forest.isEmpty := by
  intro forest other reorders
  -- An induction on the reordering; of nodes nothing is said.
  exact @Forest.Reorders.rec α β (fun _ _ _ => True) (fun forest other _ => other.isEmpty = forest.isEmpty)
    (fun _ _ => trivial) rfl (fun _ _ _ _ => rfl) rfl (fun _ _ first second => second.trans first) _ _ reorders

theorem Node.Reorders.carries_eq {node other : Node α β} (reorders : node.Reorders other) :
    other.carries = node.carries := by
  cases reorders with
  | mk children => rw [Node.carries, Node.carries, Node.entry, Node.entry, Node.children, Node.children,
      children.isEmpty_eq]

mutual

theorem Node.Reorders.occupied : ∀ {node other : Node α β}, node.Reorders other → node.Occupied → other.Occupied
  | _, _, .mk children, occupied => by
    rw [Node.Occupied] at occupied ⊢
    exact children.occupied occupied

theorem Forest.Reorders.occupied : ∀ {forest other : Forest α β}, forest.Reorders other → forest.Occupied →
    other.Occupied
  | _, _, .nil, _ => trivial
  | _, _, .cons child children, occupied => by
    obtain ⟨carries, inside, beside⟩ := occupied
    exact ⟨by rwa [child.carries_eq], child.occupied inside, children.occupied beside⟩
  | _, _, .swap, occupied => by
    obtain ⟨leftCarries, left, rightCarries, right, others⟩ := occupied
    exact ⟨rightCarries, right, leftCarries, left, others⟩
  | _, _, .trans left right, occupied => right.occupied (left.occupied occupied)

end

variable [DecidableEq α]

theorem Forest.insert_isEmpty (forest : Forest α β) (first : α) (rest : List α) (entry : β) :
    (forest.insert first rest entry).isEmpty = false := by
  cases forest with
  | nil => rfl
  | cons token child others =>
    rw [Forest.insert]
    split
    · dsimp only
      split <;> rfl
    · rfl

theorem Node.insert_carries (node : Node α β) (tokens : List α) (entry : β) :
    (node.insert tokens entry).carries = true := by
  obtain ⟨edge, own, children⟩ := node
  cases tokens with
  | nil => rfl
  | cons first rest =>
    rw [Node.insert, Node.carries, Node.children, Forest.insert_isEmpty, Bool.not_false, Bool.or_true]

/-- Both parts of a split edge carry something. -/
theorem Node.split_occupied {old : Node α β} {tokens : List α} (entry : β) (carries : old.carries = true)
    (occupied : old.Occupied) (parts : sharedPrefixLen old.edge tokens ≠ old.edge.length) :
    (old.split (sharedPrefixLen old.edge tokens) tokens entry).carries = true ∧
      (old.split (sharedPrefixLen old.edge tokens) tokens entry).Occupied := by
  have below : old.children.Occupied := by
    cases old
    exact occupied
  obtain ⟨common, oldFirst, oldRest, -, -, ⟨-, split⟩ | ⟨newFirst, newRest, -, -, split⟩⟩ :=
    Node.split_cases entry parts
  · rw [split]
    exact ⟨rfl, carries, below, trivial⟩
  · rw [split]
    exact ⟨rfl, ⟨carries, below, rfl, trivial, trivial⟩⟩

mutual

theorem Node.occupied_insert : ∀ {node : Node α β}, node.Occupied → ∀ (tokens : List α) (entry : β),
    (node.insert tokens entry).Occupied
  | .mk _ _ _, occupied, [], _ => occupied
  | .mk _ _ _, occupied, first :: rest, entry => Forest.occupied_insert occupied first rest entry

theorem Forest.occupied_insert : ∀ {forest : Forest α β}, forest.Occupied → ∀ (first : α) (rest : List α) (entry : β),
    (forest.insert first rest entry).Occupied
  | .nil, _, _, _, _ => ⟨rfl, trivial, trivial⟩
  | .cons token child others, occupied, first, rest, entry => by
    obtain ⟨carries, inside, beside⟩ := occupied
    rw [Forest.insert]
    split
    · dsimp only
      split
      · exact ⟨Node.insert_carries child _ entry, Node.occupied_insert inside _ entry, beside⟩
      · next parts =>
        obtain ⟨front, back⟩ := Node.split_occupied entry carries inside parts
        exact ⟨front, back, beside⟩
    · exact ⟨carries, inside, Forest.occupied_insert beside first rest entry⟩

end

end Occupied

end Muser.Radix
