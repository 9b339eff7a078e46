import Mathlib.Data.List.Perm.Basic
import Mathlib.Order.Lattice

/-! # Heaps in a list

The parent of a place is half of the one before it. A list is a heap from a place on when no parent from there on
has a greater key than its children. While a value sinks, the heap has a hole at its place, and each step swaps it
with the child of the least key.
-/

namespace Muser.Heap

variable {α κ : Type} [Inhabited α] [LinearOrder κ]

/-- What is at a place. -/
def place (heap : List α) (index : ℕ) : α := heap.getD index default

variable {index : ℕ} {left right : ℕ}

theorem getElem?_place {heap : List α} (inside : index < heap.length) : heap[index]? = some (place heap index) := by
  rw [place, List.getD_eq_getElem?_getD, List.getElem?_eq_getElem inside, Option.getD_some]

theorem place_set {heap : List α} (inside : index < heap.length) (value : α) (other : ℕ) :
    place (heap.set index value) other = if index = other then value else place heap other := by
  rw [place, place, List.getD_eq_getElem?_getD, List.getD_eq_getElem?_getD, List.getElem?_set]
  split
  · rfl
  · rfl

/-- The values of two places exchanged. -/
def swap (heap : List α) (left right : ℕ) : List α := (heap.set left (place heap right)).set right (place heap left)

@[simp] theorem length_swap (heap : List α) (left right : ℕ) : (swap heap left right).length = heap.length := by
  rw [swap, List.length_set, List.length_set]

theorem perm_swap {heap : List α} (insideLeft : left < heap.length) (insideRight : right < heap.length) :
    (swap heap left right).Perm heap := by
  have exchanged := List.set_set_perm insideLeft insideRight
  rwa [← Option.some.inj ((getElem?_place insideLeft).symm.trans (List.getElem?_eq_getElem insideLeft)),
    ← Option.some.inj ((getElem?_place insideRight).symm.trans (List.getElem?_eq_getElem insideRight))] at exchanged

theorem place_swap {heap : List α} (insideLeft : left < heap.length) (insideRight : right < heap.length) (other : ℕ) :
    place (swap heap left right) other =
      if right = other then place heap left else if left = other then place heap right else place heap other := by
  rw [swap, place_set (by rwa [List.length_set]), place_set insideLeft]

variable (key : α → κ)

/-- Every parent from a place on has no greater key than its children. -/
def OrderedFrom (heap : List α) (start : ℕ) : Prop :=
  ∀ child, 0 < child → child < heap.length → start ≤ (child - 1) / 2 →
    key (place heap ((child - 1) / 2)) ≤ key (place heap child)

/-- A heap but for the children of a hole, which are no less than the parent of the hole. -/
structure Hole (heap : List α) (start hole : ℕ) : Prop where
  from_start : start ≤ hole
  inside : hole < heap.length
  edges : ∀ child, 0 < child → child < heap.length → start ≤ (child - 1) / 2 → (child - 1) / 2 ≠ hole →
    key (place heap ((child - 1) / 2)) ≤ key (place heap child)
  above : ∀ child, 0 < child → child < heap.length → (child - 1) / 2 = hole → 0 < hole → start ≤ (hole - 1) / 2 →
    key (place heap ((hole - 1) / 2)) ≤ key (place heap child)

/-- A child of the hole that no sibling is less than. -/
structure Least (heap : List α) (hole child : ℕ) : Prop where
  positive : 0 < child
  inside : child < heap.length
  parent : (child - 1) / 2 = hole
  least : ∀ other, 0 < other → other < heap.length → (other - 1) / 2 = hole → key (place heap child) ≤ key (place heap other)

variable {key} {heap : List α} {start hole child : ℕ}

theorem Hole.of_ordered (ordered : OrderedFrom key heap (start + 1)) (inside : start < heap.length) :
    Hole key heap start start where
  from_start := Nat.le_refl _
  inside := inside
  edges other positive below from_ apart := ordered other positive below (by omega)
  above _ _ _ _ positive from_ := by omega

/-- The hole is closed where its value is no greater than the children. -/
theorem Hole.close (open_ : Hole key heap start hole)
    (fits : ∀ other, 0 < other → other < heap.length → (other - 1) / 2 = hole →
      key (place heap hole) ≤ key (place heap other)) :
    OrderedFrom key heap start := by
  intro other positive below from_
  by_cases here : (other - 1) / 2 = hole
  · rw [here]
    exact fits other positive below here
  · exact open_.edges other positive below from_ here

/-- The value sinks below the least child. -/
theorem Hole.sink (open_ : Hole key heap start hole) (least : Least key heap hole child)
    (greater : key (place heap child) ≤ key (place heap hole)) : Hole key (swap heap hole child) start child := by
  have below := least.parent
  have positive := least.positive
  have at_ := place_swap open_.inside least.inside
  have at_child : place (swap heap hole child) child = place heap hole := by rw [at_, if_pos rfl]
  have at_hole : place (swap heap hole child) hole = place heap child := by rw [at_, if_neg (by omega), if_pos rfl]
  have elsewhere : ∀ other, other ≠ child → other ≠ hole → place (swap heap hole child) other = place heap other := by
    intro other apart apart'
    rw [at_, if_neg (Ne.symm apart), if_neg (Ne.symm apart')]
  constructor
  case from_start => exact Nat.le_trans open_.from_start (by omega)
  case inside => exact (length_swap heap hole child).symm ▸ least.inside
  case edges =>
    intro other positive' inside from_ apart
    rw [length_swap] at inside
    by_cases here : (other - 1) / 2 = hole
    · rw [here, at_hole]
      by_cases same : other = child
      · rwa [same, at_child]
      · rw [elsewhere other same (by omega)]
        exact least.least other positive' inside here
    · rw [elsewhere _ apart here]
      by_cases same : other = hole
      · rw [same, at_hole]
        subst same
        exact open_.above child positive least.inside below positive' from_
      · rw [elsewhere other (by rintro rfl; exact here below) same]
        exact open_.edges other positive' inside from_ here
  case above =>
    intro other positive' inside here _ _
    rw [length_swap] at inside
    rw [below, at_hole, elsewhere other (by omega) (by omega), ← here]
    have first := open_.from_start
    exact open_.edges other positive' inside (by omega) (by omega)

/-- The first of a heap has the least key. -/
theorem OrderedFrom.root_le (ordered : OrderedFrom key heap 0) (inside : index < heap.length) :
    key (place heap 0) ≤ key (place heap index) := by
  induction index using Nat.strongRecOn with
  | _ index ih =>
    rcases Nat.eq_zero_or_pos index with rfl | positive
    · exact le_refl _
    · exact le_trans (ih ((index - 1) / 2) (by omega) (by omega)) (ordered index positive inside (Nat.zero_le _))

end Muser.Heap
