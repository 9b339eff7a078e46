import Mathlib.Data.List.Basic
import Mathlib.Data.List.Infix

/-! # Compressed radix trees

A node carries the tokens of the edge that leads to it, an optional entry and its children, each
under the first token of its edge. A tree stands for the finite map `find`: insertion updates it at
one key, splitting an edge where two keys part, and pruning leaves it alone.
-/

namespace Muser.Radix

mutual

inductive Node (α β : Type) where
  | mk (edge : List α) (entry : Option β) (children : Forest α β)

/-- The children of a node, each with the token it is stored under. -/
inductive Forest (α β : Type) where
  | nil
  | cons (token : α) (child : Node α β) (others : Forest α β)

end

variable {α β : Type}

namespace Node

def edge : Node α β → List α
  | .mk edge _ _ => edge

def entry : Node α β → Option β
  | .mk _ entry _ => entry

def children : Node α β → Forest α β
  | .mk _ _ children => children

/-- A node without children. -/
def leaf (edge : List α) (entry : β) : Node α β := .mk edge (some entry) .nil

/-- The tree without entries. -/
def empty : Node α β := .mk [] none .nil

end Node

/-- The length of the longest common prefix. -/
def sharedPrefixLen [DecidableEq α] : List α → List α → ℕ
  | left :: lefts, right :: rights => if left = right then sharedPrefixLen lefts rights + 1 else 0
  | _, _ => 0

/-- Where two lists part. -/
theorem sharedPrefixLen_split [DecidableEq α] (left right : List α) : ∃ common leftRest rightRest,
    left = common ++ leftRest ∧ right = common ++ rightRest ∧ common.length = sharedPrefixLen left right ∧
      ∀ token, leftRest.head? = some token → rightRest.head? ≠ some token := by
  induction left generalizing right with
  | nil => exact ⟨[], [], right, rfl, rfl, by simp [sharedPrefixLen], by simp⟩
  | cons first lefts ih =>
    cases right with
    | nil => exact ⟨[], first :: lefts, [], rfl, rfl, by simp [sharedPrefixLen], by simp⟩
    | cons other rights =>
      by_cases same : first = other
      · subst same
        obtain ⟨common, leftRest, rightRest, rfl, rfl, length, parted⟩ := ih rights
        exact ⟨first :: common, leftRest, rightRest, rfl, rfl, by simp [sharedPrefixLen, length], parted⟩
      · refine ⟨[], first :: lefts, other :: rights, rfl, rfl, by simp [sharedPrefixLen, same], ?_⟩
        rintro token firsts seconds
        cases firsts
        cases seconds
        exact same rfl

theorem sharedPrefixLen_eq_length_iff [DecidableEq α] {left right : List α} :
    sharedPrefixLen left right = left.length ↔ left <+: right := by
  induction left generalizing right with
  | nil => simp [sharedPrefixLen]
  | cons first lefts ih =>
    cases right with
    | nil => simp [sharedPrefixLen]
    | cons other rights =>
      by_cases same : first = other
      · subst same
        simp [sharedPrefixLen, ih]
      · simp [sharedPrefixLen, same, List.cons_prefix_cons]

section Find

variable [DecidableEq α]

mutual

/-- The entry at a key, from a node on. -/
def Node.find : Node α β → List α → Option β
  | .mk _ entry _, [] => entry
  | .mk _ _ children, first :: rest => children.find first rest

/-- The entry at a key whose first token selects the child. -/
def Forest.find : Forest α β → α → List α → Option β
  | .nil, _, _ => none
  | .cons token child others, first, rest =>
    if token = first then
      if child.edge <+: first :: rest then child.find ((first :: rest).drop child.edge.length) else none
    else others.find first rest

end

/-- The entry at a key that starts with the edge of a node. -/
def Node.findUnder (child : Node α β) (tokens : List α) : Option β :=
  if child.edge <+: tokens then child.find (tokens.drop child.edge.length) else none

theorem Node.find_nil (node : Node α β) : node.find [] = node.entry := by
  cases node
  rfl

theorem Node.find_cons (node : Node α β) (first : α) (rest : List α) :
    node.find (first :: rest) = node.children.find first rest := by
  cases node
  rfl

theorem Forest.find_cons (token : α) (child : Node α β) (others : Forest α β) (first : α) (rest : List α) :
    (Forest.cons token child others).find first rest =
      if token = first then child.findUnder (first :: rest) else others.find first rest := rfl

theorem Node.findUnder_append (child : Node α β) (tokens : List α) :
    child.findUnder (child.edge ++ tokens) = child.find tokens := by
  rw [Node.findUnder, if_pos (List.prefix_append ..), List.drop_left]

theorem Node.findUnder_of_not_prefix {child : Node α β} {tokens : List α} (other : ¬child.edge <+: tokens) :
    child.findUnder tokens = none := if_neg other

end Find

section Valid

/-- No child is stored under a token. -/
def Forest.Lacks : Forest α β → α → Prop
  | .nil, _ => True
  | .cons token _ others, absent => token ≠ absent ∧ others.Lacks absent

mutual

/-- Every child is stored under the first token of its edge, and no token is used twice. -/
def Node.Valid : Node α β → Prop
  | .mk _ _ children => children.Valid

def Forest.Valid : Forest α β → Prop
  | .nil => True
  | .cons token child others =>
    child.edge.head? = some token ∧ child.Valid ∧ others.Lacks token ∧ others.Valid

end

theorem Node.valid_empty : (Node.empty : Node α β).Valid := by simp [Node.empty, Node.Valid, Forest.Valid]

theorem Forest.Lacks.find [DecidableEq α] : ∀ {forest : Forest α β} {token : α}, forest.Lacks token →
    ∀ rest, forest.find token rest = none
  | .nil, _, _, _ => rfl
  | .cons _ _ others, _, lacks, rest => by
    rw [Forest.Lacks] at lacks
    rw [Forest.find_cons, if_neg lacks.1]
    exact Forest.Lacks.find lacks.2 rest

end Valid

section Insert

variable [DecidableEq α]

/-- Part an edge at the end of its common prefix with a key, and put the entry where the key ends. -/
def Node.split (old : Node α β) (shared : ℕ) (tokens : List α) (entry : β) : Node α β :=
  match old.edge.drop shared, tokens.drop shared with
  | [], _ => old
  | oldFirst :: oldRest, [] =>
    .mk (old.edge.take shared) (some entry)
      (.cons oldFirst (.mk (oldFirst :: oldRest) old.entry old.children) .nil)
  | oldFirst :: oldRest, newFirst :: newRest =>
    .mk (old.edge.take shared) none
      (.cons oldFirst (.mk (oldFirst :: oldRest) old.entry old.children)
        (.cons newFirst (.leaf (newFirst :: newRest) entry) .nil))

mutual

/-- Put an entry at a key. -/
def Node.insert : Node α β → List α → β → Node α β
  | .mk edge _ children, [], entry => .mk edge (some entry) children
  | .mk edge previous children, first :: rest, entry => .mk edge previous (children.insert first rest entry)

def Forest.insert : Forest α β → α → List α → β → Forest α β
  | .nil, first, rest, entry => .cons first (.leaf (first :: rest) entry) .nil
  | .cons token child others, first, rest, entry =>
    if token = first then
      let shared := sharedPrefixLen child.edge (first :: rest)
      if shared = child.edge.length then
        .cons token (child.insert ((first :: rest).drop shared) entry) others
      else
        .cons token (child.split shared (first :: rest) entry) others
    else
      .cons token child (others.insert first rest entry)

end

@[simp] theorem Node.insert_edge (node : Node α β) (tokens : List α) (entry : β) :
    (node.insert tokens entry).edge = node.edge := by
  cases node
  cases tokens <;> rfl

theorem Forest.Lacks.insert : ∀ {forest : Forest α β} {absent first : α}, forest.Lacks absent → first ≠ absent →
    ∀ (rest : List α) (entry : β), (forest.insert first rest entry).Lacks absent
  | .nil, _, _, _, other, _, _ => by simp [Forest.insert, Forest.Lacks, other]
  | .cons token child others, absent, first, lacks, other, rest, entry => by
    rw [Forest.Lacks] at lacks
    rw [Forest.insert]
    split
    · dsimp only
      split <;> exact ⟨lacks.1, lacks.2⟩
    · exact ⟨lacks.1, Forest.Lacks.insert lacks.2 other rest entry⟩

variable {old : Node α β} {tokens : List α}

/-- What a split does: the edge parts at the common prefix, and the heads of the two rests differ. -/
theorem Node.split_cases (entry : β) (parts : sharedPrefixLen old.edge tokens ≠ old.edge.length) :
    ∃ common oldFirst oldRest, old.edge = common ++ oldFirst :: oldRest ∧
      common.length = sharedPrefixLen old.edge tokens ∧
      ((tokens = common ∧ old.split (sharedPrefixLen old.edge tokens) tokens entry =
          .mk common (some entry) (.cons oldFirst (.mk (oldFirst :: oldRest) old.entry old.children) .nil)) ∨
        ∃ newFirst newRest, tokens = common ++ newFirst :: newRest ∧ oldFirst ≠ newFirst ∧
          old.split (sharedPrefixLen old.edge tokens) tokens entry =
            .mk common none (.cons oldFirst (.mk (oldFirst :: oldRest) old.entry old.children)
              (.cons newFirst (.leaf (newFirst :: newRest) entry) .nil))) := by
  obtain ⟨common, oldRest, newRest, edges, keys, length, parted⟩ := sharedPrefixLen_split old.edge tokens
  cases oldRest with
  | nil =>
    rw [edges, List.append_nil] at parts
    rw [edges, List.append_nil] at length
    exact absurd length.symm parts
  | cons oldFirst oldRest =>
    have taken : old.edge.take common.length = common := by rw [edges, List.take_left]
    have dropped : old.edge.drop common.length = oldFirst :: oldRest := by rw [edges, List.drop_left]
    have left : tokens.drop common.length = newRest := by rw [keys, List.drop_left]
    refine ⟨common, oldFirst, oldRest, edges, length, ?_⟩
    rw [← length, Node.split, dropped, left, taken]
    cases newRest with
    | nil => exact Or.inl ⟨by simpa using keys, rfl⟩
    | cons newFirst newRest =>
      exact Or.inr ⟨newFirst, newRest, keys, fun same => parted oldFirst rfl (by rw [same]; rfl), rfl⟩

/-- Keys under an edge with a common first part are keys under its second part. -/
theorem Node.findUnder_common {common rest : List α} (edges : old.edge = common ++ rest)
    (key : List α) : old.findUnder (common ++ key) = (Node.mk rest old.entry old.children).findUnder key := by
  obtain ⟨edge, entry, children⟩ := old
  change edge = common ++ rest at edges
  subst edges
  simp only [Node.findUnder, Node.edge, Node.entry, Node.children, List.prefix_append_right_inj,
    List.length_append, List.drop_append]
  simp only [List.drop_eq_nil_of_le (Nat.le_add_right common.length rest.length), List.nil_append,
    Nat.add_sub_cancel_left]
  cases hkey : key.drop rest.length <;> rfl

theorem Node.findUnder_of_head_ne {child : Node α β} {token first : α} (edges : child.edge.head? = some token)
    (other : token ≠ first) (rest : List α) : child.findUnder (first :: rest) = none := by
  refine Node.findUnder_of_not_prefix fun isPrefix => ?_
  cases edge : child.edge with
  | nil => simp [edge] at edges
  | cons head tail =>
    rw [edge] at edges isPrefix
    rw [List.cons_prefix_cons] at isPrefix
    rw [List.head?_cons, Option.some.injEq] at edges
    exact other (edges.symm.trans isPrefix.1)

theorem Node.findUnder_leaf (edge key : List α) (entry : β) :
    (Node.leaf edge entry).findUnder key = if key = edge then some entry else none := by
  by_cases isPrefix : edge <+: key
  · obtain ⟨rest, rfl⟩ := isPrefix
    rw [show edge ++ rest = (Node.leaf edge entry).edge ++ rest from rfl, Node.findUnder_append]
    cases rest with
    | nil => simp [Node.find_nil, Node.leaf, Node.entry, Node.edge]
    | cons first rest => simp [Node.find_cons, Node.leaf, Node.children, Node.edge, Forest.find]
  · rw [Node.findUnder_of_not_prefix (show ¬(Node.leaf edge entry).edge <+: key from isPrefix), if_neg]
    rintro rfl
    exact isPrefix List.prefix_rfl

/-- The entries under a split edge: the new one, and those that were there. -/
theorem Node.findUnder_split (entry : β) (parts : sharedPrefixLen old.edge tokens ≠ old.edge.length) (key : List α) :
    (old.split (sharedPrefixLen old.edge tokens) tokens entry).findUnder key =
      if key = tokens then some entry else old.findUnder key := by
  obtain ⟨common, oldFirst, oldRest, edges, -, cases⟩ := Node.split_cases entry parts
  have edge : (old.split (sharedPrefixLen old.edge tokens) tokens entry).edge = common := by
    obtain ⟨-, split⟩ | ⟨_, _, -, -, split⟩ := cases <;> rw [split] <;> rfl
  by_cases isPrefix : common <+: key
  · obtain ⟨rest, rfl⟩ := isPrefix
    rw [Node.findUnder_common edges]
    conv_lhs => rw [← edge, Node.findUnder_append]
    obtain ⟨keys, split⟩ | ⟨newFirst, newRest, rfl, differ, split⟩ := cases
    · rw [split, keys]
      cases rest with
      | nil => simp [Node.find_nil, Node.entry]
      | cons first rest =>
        have longer : common ++ first :: rest ≠ common := by simp
        rw [if_neg longer, Node.find_cons, Node.children, Forest.find_cons]
        split
        · rfl
        · next other => exact (Node.findUnder_of_head_ne rfl other rest).symm
    · rw [split]
      cases rest with
      | nil =>
        rw [if_neg (by simp)]
        exact (Node.findUnder_of_not_prefix (by simp [Node.edge])).symm
      | cons first rest =>
        rw [Node.find_cons, Node.children, Forest.find_cons, Forest.find_cons, Node.findUnder_leaf]
        by_cases old : oldFirst = first
        · subst old
          rw [if_pos rfl, if_neg]
          simpa using fun same => absurd same differ
        · rw [if_neg old, Node.findUnder_of_head_ne rfl old rest]
          by_cases new : newFirst = first
          · subst new
            simp
          · have other : first ≠ newFirst := fun same => new same.symm
            simp [Forest.find, new, other]
  · rw [Node.findUnder_of_not_prefix (by rwa [edge]), Node.findUnder_of_not_prefix, if_neg]
    · rintro rfl
      refine isPrefix ?_
      obtain ⟨rfl, -⟩ | ⟨_, _, rfl, -, -⟩ := cases
      · exact List.prefix_rfl
      · exact List.prefix_append ..
    · intro whole
      exact isPrefix ((edges ▸ List.prefix_append common _).trans whole)

theorem Node.valid_split (entry : β) (valid : old.Valid) (parts : sharedPrefixLen old.edge tokens ≠ old.edge.length) :
    (old.split (sharedPrefixLen old.edge tokens) tokens entry).Valid := by
  have children : old.children.Valid := by
    cases old
    simpa [Node.Valid, Node.children] using valid
  obtain ⟨common, oldFirst, oldRest, edges, -, ⟨-, split⟩ | ⟨newFirst, newRest, -, differ, split⟩⟩ :=
    Node.split_cases entry parts
  · rw [split]
    simp [Node.Valid, Forest.Valid, Forest.Lacks, Node.edge, children]
  · rw [split]
    simp [Node.Valid, Forest.Valid, Forest.Lacks, Node.edge, Node.leaf, children, Ne.symm differ]

/-- A split edge starts with the token it is stored under, when the key does. -/
theorem Node.split_head {first : α} {rest : List α} (entry : β) (head : old.edge.head? = some first)
    (parts : sharedPrefixLen old.edge (first :: rest) ≠ old.edge.length) :
    (old.split (sharedPrefixLen old.edge (first :: rest)) (first :: rest) entry).edge.head? = some first := by
  have positive : sharedPrefixLen old.edge (first :: rest) ≠ 0 := by
    cases edge : old.edge with
    | nil => simp [edge] at head
    | cons other tail =>
      rw [edge, List.head?_cons, Option.some.injEq] at head
      simp [sharedPrefixLen, head]
  obtain ⟨common, oldFirst, oldRest, edges, length, cases⟩ := Node.split_cases entry parts
  have edge : (old.split (sharedPrefixLen old.edge (first :: rest)) (first :: rest) entry).edge = common := by
    obtain ⟨-, split⟩ | ⟨_, _, -, -, split⟩ := cases <;> rw [split] <;> rfl
  rw [edge]
  cases common with
  | nil => exact absurd length.symm positive
  | cons token tail =>
    rw [edges] at head
    simpa using head

mutual

/-- Insertion updates the map at its key and nowhere else. -/
theorem Node.find_insert : ∀ {node : Node α β}, node.Valid → ∀ (tokens : List α) (entry : β) (key : List α),
    (node.insert tokens entry).find key = if key = tokens then some entry else node.find key
  | .mk edge previous children, valid, tokens, entry, key => by
    rw [Node.Valid] at valid
    cases tokens with
    | nil =>
      cases key with
      | nil => rfl
      | cons first rest => rfl
    | cons first rest =>
      cases key with
      | nil => rfl
      | cons keyFirst keyRest => exact Forest.find_insert valid first rest entry keyFirst keyRest

theorem Forest.find_insert : ∀ {forest : Forest α β}, forest.Valid →
    ∀ (first : α) (rest : List α) (entry : β) (keyFirst : α) (keyRest : List α),
      (forest.insert first rest entry).find keyFirst keyRest =
        if keyFirst :: keyRest = first :: rest then some entry else forest.find keyFirst keyRest
  | .nil, _, first, rest, entry, keyFirst, keyRest => by
    rw [Forest.insert, Forest.find_cons, Node.findUnder_leaf]
    by_cases same : first = keyFirst
    · rw [if_pos same]
      rfl
    · rw [if_neg same, if_neg]
      simpa using fun other => absurd other.symm same
  | .cons token child others, valid, first, rest, entry, keyFirst, keyRest => by
    obtain ⟨head, child_valid, -, others_valid⟩ := valid
    rw [Forest.insert]
    by_cases token_first : token = first
    · subst token_first
      rw [if_pos rfl]
      dsimp only
      by_cases token_key : token = keyFirst
      · subst token_key
        by_cases whole : sharedPrefixLen child.edge (token :: rest) = child.edge.length
        · -- the key goes on below the child
          rw [if_pos whole, Forest.find_cons, Forest.find_cons, if_pos rfl, if_pos rfl]
          obtain ⟨below, keys⟩ := sharedPrefixLen_eq_length_iff.mp whole
          rw [whole, ← keys, List.drop_left, Node.findUnder, Node.insert_edge]
          by_cases isPrefix : child.edge <+: token :: keyRest
          · obtain ⟨keyBelow, keyKeys⟩ := isPrefix
            rw [← keyKeys, if_pos (List.prefix_append ..), List.drop_left, Node.find_insert child_valid,
              Node.findUnder_append]
            simp only [List.append_cancel_left_eq]
          · rw [if_neg isPrefix, Node.findUnder_of_not_prefix isPrefix, if_neg]
            intro same
            exact isPrefix (same ▸ List.prefix_append ..)
        · -- the edge parts
          rw [if_neg whole, Forest.find_cons, Forest.find_cons, if_pos rfl, if_pos rfl,
            Node.findUnder_split entry whole]
      · have other : keyFirst :: keyRest ≠ token :: rest := by
          simpa using fun same => absurd same.symm token_key
        rw [if_neg other]
        split <;> rw [Forest.find_cons, Forest.find_cons, if_neg token_key, if_neg token_key]
    · rw [if_neg token_first, Forest.find_cons, Forest.find_cons,
        Forest.find_insert others_valid first rest entry keyFirst keyRest]
      by_cases token_key : token = keyFirst
      · have other : keyFirst :: keyRest ≠ first :: rest := by
          simpa using fun same => absurd (token_key.trans same) token_first
        rw [if_pos token_key, if_pos token_key, if_neg other]
      · rw [if_neg token_key, if_neg token_key]

end

mutual

theorem Node.valid_insert : ∀ {node : Node α β}, node.Valid → ∀ (tokens : List α) (entry : β),
    (node.insert tokens entry).Valid
  | .mk edge previous children, valid, tokens, entry => by
    rw [Node.Valid] at valid
    cases tokens with
    | nil => exact valid
    | cons first rest => exact Forest.valid_insert valid first rest entry

theorem Forest.valid_insert : ∀ {forest : Forest α β}, forest.Valid → ∀ (first : α) (rest : List α) (entry : β),
    (forest.insert first rest entry).Valid
  | .nil, _, first, rest, entry => by
    simp [Forest.insert, Forest.Valid, Forest.Lacks, Node.leaf, Node.edge, Node.Valid]
  | .cons token child others, valid, first, rest, entry => by
    obtain ⟨head, child_valid, lacks, others_valid⟩ := valid
    rw [Forest.insert]
    by_cases token_first : token = first
    · subst token_first
      rw [if_pos rfl]
      dsimp only
      split
      · exact ⟨by rwa [Node.insert_edge], Node.valid_insert child_valid _ entry, lacks, others_valid⟩
      · next parts =>
        exact ⟨Node.split_head entry head parts, Node.valid_split entry child_valid parts, lacks, others_valid⟩
    · rw [if_neg token_first]
      exact ⟨head, child_valid, lacks.insert (Ne.symm token_first) rest entry,
        Forest.valid_insert others_valid first rest entry⟩

end

end Insert

section Entries

mutual

/-- The entries of a tree, a node before its children. -/
def Node.entries : Node α β → List β
  | .mk _ entry children => entry.toList ++ children.entries

def Forest.entries : Forest α β → List β
  | .nil => []
  | .cons _ child others => child.entries ++ others.entries

end

mutual

theorem Node.mem_entries_of_find [DecidableEq α] : ∀ {node : Node α β} {key : List α} {entry : β},
    node.find key = some entry → entry ∈ node.entries
  | .mk _ _ _, [], _, found => by
    rw [Node.find_nil, Node.entry] at found
    simp [Node.entries, found]
  | .mk _ _ _, first :: rest, _, found => by
    rw [Node.find_cons, Node.children] at found
    exact List.mem_append_right _ (Forest.mem_entries_of_find found)

theorem Forest.mem_entries_of_find [DecidableEq α] : ∀ {forest : Forest α β} {first : α} {rest : List α} {entry : β},
    forest.find first rest = some entry → entry ∈ forest.entries
  | .nil, _, _, _, found => by simp [Forest.find] at found
  | .cons _ child _, _, _, _, found => by
    rw [Forest.find_cons, Node.findUnder] at found
    split at found
    · split at found
      · exact List.mem_append_left _ (Node.mem_entries_of_find found)
      · simp at found
    · exact List.mem_append_right _ (Forest.mem_entries_of_find found)

end

end Entries

section Remove

mutual

/-- Take out the first entry that a test picks, and say whether there was one. -/
def Node.remove (picks : β → Bool) : Node α β → Node α β × Bool
  | .mk edge entry children =>
    if entry.any picks then (.mk edge none children, true)
    else (.mk edge entry (children.remove picks).1, (children.remove picks).2)

def Forest.remove (picks : β → Bool) : Forest α β → Forest α β × Bool
  | .nil => (.nil, false)
  | .cons token child others =>
    if (child.remove picks).2 then (.cons token (child.remove picks).1 others, true)
    else (.cons token (child.remove picks).1 (others.remove picks).1, (others.remove picks).2)

end

@[simp] theorem Node.remove_edge (picks : β → Bool) (node : Node α β) : (node.remove picks).1.edge = node.edge := by
  cases node
  rw [Node.remove]
  split <;> rfl

theorem Forest.Lacks.remove (picks : β → Bool) : ∀ {forest : Forest α β} {absent : α}, forest.Lacks absent →
    (forest.remove picks).1.Lacks absent
  | .nil, _, _ => trivial
  | .cons _ _ _, _, lacks => by
    rw [Forest.Lacks] at lacks
    rw [Forest.remove]
    split
    · exact lacks
    · exact ⟨lacks.1, lacks.2.remove picks⟩

mutual

theorem Node.Valid.remove (picks : β → Bool) : ∀ {node : Node α β}, node.Valid → (node.remove picks).1.Valid
  | .mk edge entry children, valid => by
    rw [Node.Valid] at valid
    rw [Node.remove]
    split
    · exact valid
    · exact Forest.Valid.remove picks valid

theorem Forest.Valid.remove (picks : β → Bool) : ∀ {forest : Forest α β}, forest.Valid → (forest.remove picks).1.Valid
  | .nil, _ => trivial
  | .cons token child others, valid => by
    obtain ⟨head, child_valid, lacks, others_valid⟩ := valid
    rw [Forest.remove]
    split
    · exact ⟨by rwa [Node.remove_edge], Node.Valid.remove picks child_valid, lacks, others_valid⟩
    · exact ⟨by rwa [Node.remove_edge], Node.Valid.remove picks child_valid, lacks.remove picks,
        Forest.Valid.remove picks others_valid⟩

end

mutual

theorem Node.remove_snd (picks : β → Bool) : ∀ node : Node α β, (node.remove picks).2 = node.entries.any picks
  | .mk edge entry children => by
    rw [Node.remove, Node.entries, List.any_append]
    cases entry with
    | none => simpa using Forest.remove_snd picks children
    | some entry =>
      cases picked : picks entry with
      | true => simp [picked]
      | false => simpa [picked] using Forest.remove_snd picks children

theorem Forest.remove_snd (picks : β → Bool) : ∀ forest : Forest α β, (forest.remove picks).2 = forest.entries.any picks
  | .nil => rfl
  | .cons token child others => by
    rw [Forest.remove, Forest.entries, List.any_append, ← Node.remove_snd picks child,
      ← Forest.remove_snd picks others]
    split
    · next taken => simp [taken]
    · next kept => simp [kept]

end

mutual

/-- Where nothing is picked, nothing changes. -/
theorem Node.remove_of_not_any (picks : β → Bool) : ∀ {node : Node α β}, (node.remove picks).2 = false →
    (node.remove picks).1 = node
  | .mk edge entry children, none_picked => by
    rw [Node.remove] at none_picked ⊢
    split at none_picked
    · simp at none_picked
    · next other =>
      rw [if_neg other, Forest.remove_of_not_any picks none_picked]

theorem Forest.remove_of_not_any (picks : β → Bool) : ∀ {forest : Forest α β}, (forest.remove picks).2 = false →
    (forest.remove picks).1 = forest
  | .nil, _ => rfl
  | .cons token child others, none_picked => by
    rw [Forest.remove] at none_picked ⊢
    split at none_picked
    · simp at none_picked
    · next kept =>
      rw [if_neg kept, Node.remove_of_not_any picks (by simpa using kept),
        Forest.remove_of_not_any picks none_picked]

end

mutual

/-- Removal takes one entry. -/
theorem Node.length_entries_remove (picks : β → Bool) : ∀ {node : Node α β}, (node.remove picks).2 = true →
    (node.remove picks).1.entries.length + 1 = node.entries.length
  | .mk edge entry children, taken => by
    rw [Node.remove] at taken ⊢
    split at taken
    · next picked =>
      rw [if_pos picked]
      cases entry with
      | none => simp at picked
      | some entry => simp [Node.entries]
    · next other =>
      rw [if_neg other]
      have rest := Forest.length_entries_remove picks taken
      simp only [Node.entries, List.length_append]
      lia

theorem Forest.length_entries_remove (picks : β → Bool) : ∀ {forest : Forest α β}, (forest.remove picks).2 = true →
    (forest.remove picks).1.entries.length + 1 = forest.entries.length
  | .nil, taken => by simp [Forest.remove] at taken
  | .cons token child others, taken => by
    rw [Forest.remove] at taken ⊢
    split at taken
    · next here =>
      rw [if_pos here]
      have rest := Node.length_entries_remove picks here
      simp only [Forest.entries, List.length_append]
      lia
    · next kept =>
      rw [if_neg kept]
      have same := Node.remove_of_not_any picks (show (child.remove picks).2 = false by simpa using kept)
      have rest := Forest.length_entries_remove picks taken
      simp only [Forest.entries, List.length_append, same]
      lia

end

variable [DecidableEq α]

mutual

/-- Removal clears the map at the key of a picked entry and nowhere else. -/
theorem Node.find_remove (picks : β → Bool) : ∀ {node : Node α β}, node.Valid → (node.remove picks).2 = true →
    ∃ removed entry, node.find removed = some entry ∧ picks entry ∧
      ∀ key, (node.remove picks).1.find key = if key = removed then none else node.find key
  | .mk edge entry children, valid, taken => by
    rw [Node.Valid] at valid
    rw [Node.remove] at taken ⊢
    split at taken
    · next picked =>
      rw [if_pos picked]
      cases entry with
      | none => simp at picked
      | some entry =>
        refine ⟨[], entry, rfl, by simpa using picked, fun key => ?_⟩
        cases key <;> rfl
    · next other =>
      rw [if_neg other]
      obtain ⟨first, rest, removed, found, picked, after⟩ := Forest.find_remove picks valid taken
      refine ⟨first :: rest, removed, found, picked, fun key => ?_⟩
      cases key with
      | nil => rfl
      | cons keyFirst keyRest => exact after keyFirst keyRest

theorem Forest.find_remove (picks : β → Bool) : ∀ {forest : Forest α β}, forest.Valid → (forest.remove picks).2 = true →
    ∃ first rest entry, forest.find first rest = some entry ∧ picks entry ∧
      ∀ keyFirst keyRest, (forest.remove picks).1.find keyFirst keyRest =
        if keyFirst :: keyRest = first :: rest then none else forest.find keyFirst keyRest
  | .nil, _, taken => by simp [Forest.remove] at taken
  | .cons token child others, valid, taken => by
    obtain ⟨head, child_valid, lacks, others_valid⟩ := valid
    rw [Forest.remove] at taken ⊢
    split at taken
    · next here =>
      rw [if_pos here]
      obtain ⟨removed, entry, found, picked, after⟩ := Node.find_remove picks child_valid here
      obtain ⟨rest, edge⟩ := List.head?_eq_some_iff.mp head
      refine ⟨token, rest ++ removed, entry, ?_, picked, fun keyFirst keyRest => ?_⟩
      · rw [Forest.find_cons, if_pos rfl, ← List.cons_append, ← edge, Node.findUnder_append, found]
      · rw [Forest.find_cons, Forest.find_cons, ← List.cons_append, ← edge]
        by_cases same : token = keyFirst
        · rw [if_pos same, if_pos same, Node.findUnder, Node.remove_edge]
          by_cases isPrefix : child.edge <+: keyFirst :: keyRest
          · obtain ⟨key, keys⟩ := isPrefix
            rw [← keys, if_pos (List.prefix_append ..), List.drop_left, after, Node.findUnder_append]
            simp only [List.append_cancel_left_eq]
          · rw [if_neg isPrefix, Node.findUnder_of_not_prefix isPrefix, ite_self]
        · have other : keyFirst :: keyRest ≠ child.edge ++ removed := by
            simpa [edge] using fun other => absurd other.symm same
          rw [if_neg same, if_neg same, if_neg other]
    · next kept =>
      rw [if_neg kept, Node.remove_of_not_any picks (by simpa using kept)]
      obtain ⟨first, rest, entry, found, picked, after⟩ := Forest.find_remove picks others_valid taken
      have differ : token ≠ first := by
        rintro rfl
        rw [lacks.find] at found
        simp at found
      refine ⟨first, rest, entry, by rw [Forest.find_cons, if_neg differ, found], picked, fun keyFirst keyRest => ?_⟩
      rw [Forest.find_cons, Forest.find_cons, after]
      by_cases same : token = keyFirst
      · have other : keyFirst :: keyRest ≠ first :: rest := by
          simpa using fun other => absurd (same.trans other) differ
        rw [if_pos same, if_pos same, if_neg other]
      · rw [if_neg same, if_neg same]

end

end Remove

section Prune

def Forest.isEmpty : Forest α β → Bool
  | .nil => true
  | .cons _ _ _ => false

mutual

/-- Drop every child that neither holds an entry nor has children left. -/
def Node.prune : Node α β → Node α β
  | .mk edge entry children => .mk edge entry children.prune

def Forest.prune : Forest α β → Forest α β
  | .nil => .nil
  | .cons token child others =>
    if child.prune.entry.isSome || !child.prune.children.isEmpty then .cons token child.prune others.prune
    else others.prune

end

@[simp] theorem Node.prune_edge (node : Node α β) : node.prune.edge = node.edge := by
  cases node
  rfl

theorem Forest.Lacks.prune : ∀ {forest : Forest α β} {absent : α}, forest.Lacks absent → forest.prune.Lacks absent
  | .nil, _, _ => trivial
  | .cons _ _ _, _, lacks => by
    rw [Forest.Lacks] at lacks
    rw [Forest.prune]
    split
    · exact ⟨lacks.1, lacks.2.prune⟩
    · exact lacks.2.prune

mutual

theorem Node.Valid.prune : ∀ {node : Node α β}, node.Valid → node.prune.Valid
  | .mk edge entry children, valid => by
    rw [Node.Valid] at valid
    exact Forest.Valid.prune valid

theorem Forest.Valid.prune : ∀ {forest : Forest α β}, forest.Valid → forest.prune.Valid
  | .nil, _ => trivial
  | .cons token child others, valid => by
    obtain ⟨head, child_valid, lacks, others_valid⟩ := valid
    rw [Forest.prune]
    split
    · exact ⟨by rwa [Node.prune_edge], Node.Valid.prune child_valid, lacks.prune, Forest.Valid.prune others_valid⟩
    · exact Forest.Valid.prune others_valid

end

/-- A node that pruning drops holds nothing. -/
theorem Node.eq_of_bare {node : Node α β} (bare : ¬(node.entry.isSome || !node.children.isEmpty) = true) :
    node = .mk node.edge none .nil := by
  obtain ⟨edge, entry, children⟩ := node
  cases entry with
  | some entry => simp [Node.entry] at bare
  | none =>
    cases children with
    | nil => rfl
    | cons token child others => simp [Node.entry, Node.children, Forest.isEmpty] at bare

mutual

theorem Node.entries_prune : ∀ node : Node α β, node.prune.entries = node.entries
  | .mk edge entry children => by rw [Node.prune, Node.entries, Node.entries, Forest.entries_prune children]

theorem Forest.entries_prune : ∀ forest : Forest α β, forest.prune.entries = forest.entries
  | .nil => rfl
  | .cons token child others => by
    have same := Node.entries_prune child
    rw [Forest.prune, Forest.entries]
    split
    · rw [Forest.entries, same, Forest.entries_prune others]
    · next bare =>
      rw [Node.eq_of_bare bare] at same
      rw [Forest.entries_prune others, ← same]
      rfl

end

variable [DecidableEq α]

mutual

/-- Pruning leaves the map alone. -/
theorem Node.find_prune : ∀ {node : Node α β}, node.Valid → ∀ key, node.prune.find key = node.find key
  | .mk edge entry children, valid, [] => rfl
  | .mk edge entry children, valid, first :: rest => by
    rw [Node.Valid] at valid
    exact Forest.find_prune valid first rest

theorem Forest.find_prune : ∀ {forest : Forest α β}, forest.Valid → ∀ first rest,
    forest.prune.find first rest = forest.find first rest
  | .nil, _, _, _ => rfl
  | .cons token child others, valid, first, rest => by
    obtain ⟨head, child_valid, lacks, others_valid⟩ := valid
    have under : child.prune.findUnder (first :: rest) = child.findUnder (first :: rest) := by
      rw [Node.findUnder, Node.findUnder, Node.prune_edge]
      split
      · exact Node.find_prune child_valid _
      · rfl
    rw [Forest.prune, Forest.find_cons, ← under, ← Forest.find_prune others_valid first rest]
    split
    · rfl
    · next bare =>
      have nothing : child.prune.findUnder (first :: rest) = none := by
        rw [Node.eq_of_bare bare, Node.findUnder]
        split
        · cases (first :: rest).drop _ <;> rfl
        · rfl
      rw [nothing]
      split
      · next same =>
        rw [same] at lacks
        exact lacks.prune.find rest
      · rfl

end

end Prune

section Reorder

mutual

/-- The same tree, its children visited in another order. -/
inductive Node.Reorders : Node α β → Node α β → Prop
  | mk {edge : List α} {entry : Option β} {children others : Forest α β} :
      children.Reorders others → Node.Reorders (.mk edge entry children) (.mk edge entry others)

inductive Forest.Reorders : Forest α β → Forest α β → Prop
  | nil : Forest.Reorders .nil .nil
  | cons {token : α} {child other : Node α β} {children others : Forest α β} :
      child.Reorders other → children.Reorders others →
      Forest.Reorders (.cons token child children) (.cons token other others)
  | swap {left right : α} {leftChild rightChild : Node α β} {others : Forest α β} :
      Forest.Reorders (.cons left leftChild (.cons right rightChild others))
        (.cons right rightChild (.cons left leftChild others))
  | trans {first second third : Forest α β} :
      first.Reorders second → second.Reorders third → Forest.Reorders first third

end

mutual

theorem Node.Reorders.refl : ∀ node : Node α β, node.Reorders node
  | .mk _ _ children => .mk (Forest.Reorders.refl children)

theorem Forest.Reorders.refl : ∀ forest : Forest α β, forest.Reorders forest
  | .nil => .nil
  | .cons _ child others => .cons (Node.Reorders.refl child) (Forest.Reorders.refl others)

end

theorem Node.Reorders.edge_eq {node other : Node α β} (reorders : node.Reorders other) : other.edge = node.edge := by
  cases reorders
  rfl

theorem Forest.Reorders.lacks : ∀ {forest other : Forest α β} {absent : α}, forest.Reorders other →
    forest.Lacks absent → other.Lacks absent
  | _, _, _, .nil, _ => trivial
  | _, _, _, .cons _ children, lacks => ⟨lacks.1, children.lacks lacks.2⟩
  | _, _, _, .swap, lacks => ⟨lacks.2.1, lacks.1, lacks.2.2⟩
  | _, _, _, .trans left right, lacks => right.lacks (left.lacks lacks)

mutual

theorem Node.Reorders.valid : ∀ {node other : Node α β}, node.Reorders other → node.Valid → other.Valid
  | _, _, .mk children, valid => by
    rw [Node.Valid] at valid ⊢
    exact children.valid valid

theorem Forest.Reorders.valid : ∀ {forest other : Forest α β}, forest.Reorders other → forest.Valid → other.Valid
  | _, _, .nil, _ => trivial
  | _, _, .cons child children, valid => by
    obtain ⟨head, child_valid, lacks, others_valid⟩ := valid
    exact ⟨by rwa [child.edge_eq], child.valid child_valid, children.lacks lacks, children.valid others_valid⟩
  | _, _, .swap, valid => by
    obtain ⟨leftHead, leftValid, ⟨differ, leftLacks⟩, rightHead, rightValid, rightLacks, others⟩ := valid
    exact ⟨rightHead, rightValid, ⟨Ne.symm differ, rightLacks⟩, leftHead, leftValid, leftLacks, others⟩
  | _, _, .trans left right, valid => right.valid (left.valid valid)

end

mutual

theorem Node.Reorders.entries : ∀ {node other : Node α β}, node.Reorders other → node.entries.Perm other.entries
  | _, _, .mk children => by
    rw [Node.entries, Node.entries]
    exact children.entries.append_left _

theorem Forest.Reorders.entries : ∀ {forest other : Forest α β}, forest.Reorders other →
    forest.entries.Perm other.entries
  | _, _, .nil => .refl _
  | _, _, .cons child children => child.entries.append children.entries
  | _, _, @Forest.Reorders.swap _ _ _ _ leftChild rightChild others => by
    simp only [Forest.entries, ← List.append_assoc]
    exact List.perm_append_comm.append_right _
  | _, _, .trans left right => left.entries.trans right.entries

end

variable [DecidableEq α]

mutual

/-- The order of the children does not show in the map. -/
theorem Node.Reorders.find : ∀ {node other : Node α β}, node.Reorders other → node.Valid →
    ∀ key, other.find key = node.find key
  | _, _, .mk _, _, [] => rfl
  | _, _, .mk children, valid, first :: rest => by
    rw [Node.Valid] at valid
    exact children.find valid first rest

theorem Forest.Reorders.find : ∀ {forest other : Forest α β}, forest.Reorders other → forest.Valid →
    ∀ first rest, other.find first rest = forest.find first rest
  | _, _, .nil, _, _, _ => rfl
  | _, _, .cons child children, valid, first, rest => by
    obtain ⟨head, child_valid, lacks, others_valid⟩ := valid
    rw [Forest.find_cons, Forest.find_cons, children.find others_valid, Node.findUnder, Node.findUnder,
      child.edge_eq, child.find child_valid]
  | _, _, .swap, valid, first, rest => by
    obtain ⟨-, -, ⟨differ, -⟩, -⟩ := valid
    simp only [Forest.find_cons]
    split
    · next right =>
      rw [if_neg (right ▸ differ.symm)]
    · rfl
  | _, _, .trans left right, valid, first, rest =>
    (right.find (left.valid valid) first rest).trans (left.find valid first rest)

end

end Reorder

end Muser.Radix
