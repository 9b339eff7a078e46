import Mathlib.Data.List.Sort
import Muser.Engine.Logits
import Muser.Lib.Heap

/-! # The order of log probabilities

The tokens of the greatest logits are selected by a heap whose root is the least of them, as a partial sort does it,
and sorted afterwards.
-/

namespace Muser.Reply.PartialSort

open Heap Engine

/-- What `total_cmp` compares. -/
def totalKey (value : Single) : ℤ :=
  if value >>> 31 = 0 then (value &&& 0x7fffffff).toNat else -((value &&& 0x7fffffff).toNat : ℤ) - 1

theorem key_le_of_totalKey {left right : Single} (le : totalKey left ≤ totalKey right) : left.key ≤ right.key := by
  rw [totalKey, totalKey] at le
  rw [Single.key, Single.key]
  split_ifs at le ⊢ <;> omega

section Sift

variable (precedes : ℕ → ℕ → Bool)

/-- The child that a sinking value may be swapped with. -/
def chosenChild (heap : List ℕ) (parent : ℕ) : Option ℕ := do
  let child := 2 * parent + 1
  if child + 1 < heap.length then
    if precedes (← heap[child]?) (← heap[child + 1]?) then some (child + 1) else some child
  else some child

/-- The value sinks while a child precedes it, the children moving up; an access out of range is `none`. -/
def siftLoop : ℕ → ℕ → List ℕ → ℕ → ℕ → Option (List ℕ)
  | 0, _, _, _, _ => none
  | turns + 1, top, heap, start, child => do
    let heap := heap.set start (← heap[child]?)
    if (heap.length - 2) / 2 < child then some (heap.set child top)
    else
      let next ← chosenChild precedes heap child
      if precedes (← heap[next]?) top then some (heap.set child top) else siftLoop turns top heap child next

def sourceSiftDown (heap : List ℕ) (start : ℕ) : Option (List ℕ) :=
  if heap.length < 2 ∨ (heap.length - 2) / 2 < start then some heap
  else do
    let child ← chosenChild precedes heap start
    let top ← heap[start]?
    if precedes (← heap[child]?) top then some heap else siftLoop precedes heap.length top heap start child

/-- The parents sink from the last to the first. -/
def heapify (heap : List ℕ) : Option (List ℕ) :=
  if 1 < heap.length then (List.range ((heap.length - 2) / 2 + 1)).reverse.foldlM (sourceSiftDown precedes) heap
    else some heap

/-- One token of the rest, against the root. -/
def offer (selected : ℕ) (order : List ℕ) (index : ℕ) : Option (List ℕ) := do
  let candidate ← order[index]?
  let root ← order[0]?
  if precedes candidate root then
    let order := (order.set index root).set 0 candidate
    let heap ← sourceSiftDown precedes (order.take selected) 0
    some (heap ++ order.drop selected)
  else some order

end Sift

def precedes (logits : List Single) (left right : ℕ) : Bool := Single.gt (place logits left) (place logits right)

/-- The order of the selected tokens: the greater logit first, then the smaller token. -/
def ranks (logits : List Single) (left right : ℕ) : Prop :=
  totalKey (place logits right) < totalKey (place logits left) ∨
    totalKey (place logits left) = totalKey (place logits right) ∧ left ≤ right

instance (logits : List Single) : DecidableRel (ranks logits) := fun _ _ => inferInstanceAs (Decidable (_ ∨ _))

def sourcePartialSortOrder (logits : List Single) (topN : ℕ) : Option (List ℕ) := do
  let order := List.range logits.length
  let selected := min topN order.length
  if selected = 0 then some order
  else
    let heap ← heapify (precedes logits) (order.take selected)
    let order := heap ++ order.drop selected
    let order ← (List.range' selected (order.length - selected)).foldlM (offer (precedes logits) selected) order
    some ((order.take selected).insertionSort (ranks logits) ++ order.drop selected)

section Spec

variable {precedes : ℕ → ℕ → Bool} {κ : Type} [LinearOrder κ] {key : ℕ → κ}

theorem chosenChild_spec (is : ∀ left right, precedes left right = decide (key right < key left))
    {heap : List ℕ} {parent : ℕ}
    (some_ : 2 * parent + 1 < heap.length) : ∃ child, chosenChild precedes heap parent = some child ∧
      Least key heap parent child := by
  rw [chosenChild]
  split
  · next second =>
    rw [getElem?_place some_, getElem?_place second, Option.bind_eq_bind, Option.bind_some, Option.bind_some, is]
    split
    · next less =>
      refine ⟨_, rfl, by lia, second, by lia, fun other positive inside child => ?_⟩
      rcases show other = 2 * parent + 1 ∨ other = 2 * parent + 1 + 1 by lia with rfl | rfl
      · exact (of_decide_eq_true less).le
      · exact le_refl _
    · next notLess =>
      rw [decide_eq_true_eq, not_lt] at notLess
      refine ⟨_, rfl, by lia, some_, by lia, fun other positive inside child => ?_⟩
      rcases show other = 2 * parent + 1 ∨ other = 2 * parent + 1 + 1 by lia with rfl | rfl
      · exact le_refl _
      · exact notLess
  · next single =>
    refine ⟨_, rfl, by lia, some_, by lia, fun other positive inside child => ?_⟩
    rw [show other = 2 * parent + 1 by lia]

/-- The value sinks to where it belongs. -/
theorem siftLoop_spec (is : ∀ left right, precedes left right = decide (key right < key left))
    {turns top start hole child : ℕ} {heap : List ℕ}
    (enough : heap.length ≤ turns + child) (open_ : Hole key (heap.set hole top) start hole)
    (least : Least key (heap.set hole top) hole child)
    (greater : key (place heap child) ≤ key top) :
    ∃ out, siftLoop precedes turns top heap hole child = some out ∧ out.Perm (heap.set hole top) ∧
      OrderedFrom key out start := by
  induction turns generalizing heap hole child with
  | zero =>
    have inside := least.inside
    rw [List.length_set] at inside
    lia
  | succ turns ih =>
    have inside := least.inside
    have insideHole := open_.inside
    have parent := least.parent
    have positive := least.positive
    rw [List.length_set] at inside insideHole
    have at_child : place (heap.set hole top) child = place heap child := by rw [place_set insideHole, if_neg (by lia)]
    have at_hole : place (heap.set hole top) hole = top := by rw [place_set insideHole, if_pos rfl]
    -- the child moves up, and the list with the value in its place is one swap on
    have swapped : (heap.set hole (place heap child)).set child top = swap (heap.set hole top) hole child := by
      rw [swap, at_child, at_hole, List.set_set]
    have moved := open_.sink least (by rwa [at_child, at_hole])
    have perm := perm_swap open_.inside least.inside
    rw [siftLoop, getElem?_place inside, Option.bind_eq_bind, Option.bind_some]
    dsimp only
    rw [List.length_set]
    have top_at : place (swap (heap.set hole top) hole child) child = top := by
      rw [← swapped, place_set (by rwa [List.length_set]), if_pos rfl]
    split
    · next leaf =>
      rw [swapped]
      refine ⟨_, rfl, perm, moved.close fun other positive' below child_ => ?_⟩
      rw [length_swap, List.length_set] at below
      lia
    · next inner =>
      obtain ⟨next, chosen, next_least⟩ := @chosenChild_spec precedes _ _ key is (heap.set hole (place heap child)) child
        (by rw [List.length_set]; lia)
      have parent' := next_least.parent
      have positive' := next_least.positive
      have elsewhere : ∀ other, other ≠ child →
          place (swap (heap.set hole top) hole child) other = place (heap.set hole (place heap child)) other := by
        intro other apart
        rw [← swapped, place_set (by rwa [List.length_set]), if_neg (Ne.symm apart)]
      have next_least' : Least key (swap (heap.set hole top) hole child) child next := by
        refine ⟨positive', by simpa using next_least.inside, parent', fun other positive'' below child_ => ?_⟩
        rw [elsewhere next (by lia), elsewhere other (by lia)]
        exact next_least.least other positive'' (by simpa using below) child_
      rw [chosen, Option.bind_some, getElem?_place next_least.inside, Option.bind_some, is]
      split
      · next less =>
        rw [swapped]
        refine ⟨_, rfl, perm, moved.close fun other positive'' below child_ => ?_⟩
        rw [top_at]
        refine le_trans (of_decide_eq_true less).le ?_
        rw [← elsewhere next (by lia)]
        exact next_least'.least other positive'' below child_
      · next notLess =>
        rw [decide_eq_true_eq, not_lt] at notLess
        obtain ⟨out, result, perm', ordered⟩ :=
          @ih child next (heap.set hole (place heap child)) (by rw [List.length_set]; lia)
          (by rwa [swapped]) (by rwa [swapped]) notLess
        exact ⟨out, result, perm'.trans (swapped ▸ perm), ordered⟩

theorem sourceSiftDown_spec (is : ∀ left right, precedes left right = decide (key right < key left))
    {heap : List ℕ} {start : ℕ}
    (ordered : OrderedFrom key heap (start + 1)) :
    ∃ out, sourceSiftDown precedes heap start = some out ∧ out.Perm heap ∧ OrderedFrom key out start := by
  rw [sourceSiftDown]
  split
  · next leaf =>
    refine ⟨heap, rfl, .refl _, fun child positive inside from_ => ?_⟩
    exact ordered child positive inside (by omega)
  · next inner =>
    have inside : start < heap.length := by omega
    obtain ⟨child, chosen, least⟩ := @chosenChild_spec precedes _ _ key is heap start (by omega)
    have open_ := Hole.of_ordered ordered inside
    have same : heap.set start (place heap start) = heap := by
      rw [← Option.some.inj ((List.getElem?_eq_getElem inside).symm.trans (getElem?_place inside)), List.set_getElem_self]
    simp only [chosen, getElem?_place inside, Option.bind_eq_bind, Option.bind_some, getElem?_place least.inside]
    rw [is]
    split
    · next less =>
      refine ⟨heap, rfl, .refl _, open_.close fun other positive below child_ => ?_⟩
      exact le_trans (of_decide_eq_true less).le (least.least other positive below child_)
    · next notLess =>
      rw [decide_eq_true_eq, not_lt] at notLess
      have looped := @siftLoop_spec precedes _ _ key is heap.length (place heap start) start start child heap
        (Nat.le_add_right _ _)
      rw [same] at looped
      exact looped open_ least notLess

theorem sinks_spec (is : ∀ left right, precedes left right = decide (key right < key left)) {parents : ℕ} {heap : List ℕ}
    (ordered : OrderedFrom key heap parents) :
    ∃ out, (List.range parents).reverse.foldlM (sourceSiftDown precedes) heap = some out ∧ out.Perm heap ∧
      OrderedFrom key out 0 := by
  induction parents generalizing heap with
  | zero => exact ⟨heap, rfl, .refl _, ordered⟩
  | succ parents ih =>
    obtain ⟨sifted, is_, perm, ordered'⟩ := sourceSiftDown_spec is ordered
    obtain ⟨out, result, perm', done⟩ := ih ordered'
    refine ⟨out, ?_, perm'.trans perm, done⟩
    rw [List.range_succ, List.reverse_append, List.reverse_singleton, List.singleton_append, List.foldlM_cons, is_]
    exact result

theorem heapify_spec (is : ∀ left right, precedes left right = decide (key right < key left)) (heap : List ℕ) :
    ∃ out, heapify precedes heap = some out ∧ out.Perm heap ∧ OrderedFrom key out 0 := by
  rw [heapify]
  split
  · apply sinks_spec is
    intro child positive inside from_
    lia
  · refine ⟨_, rfl, .refl _, fun child positive inside _ => ?_⟩
    lia

theorem root_le_mem {heap : List ℕ} (ordered : OrderedFrom key heap 0) {chosen : ℕ} (mem : chosen ∈ heap) :
    key (place heap 0) ≤ key chosen := by
  obtain ⟨index, found⟩ := List.mem_iff_getElem?.mp mem
  obtain ⟨inside, -⟩ := List.getElem?_eq_some_iff.mp found
  rw [← Option.some.inj ((getElem?_place inside).symm.trans found)]
  exact ordered.root_le inside

/-- The tokens, of which some were offered: none of those is greater than one of the heap. -/
structure Selecting (key : ℕ → κ) (tokens heap seen rest : List ℕ) : Prop where
  perm : (heap ++ (seen ++ rest)).Perm tokens
  ordered : OrderedFrom key heap 0
  selects : ∀ chosen ∈ heap, ∀ other ∈ seen, key other ≤ key chosen

theorem offer_spec (is : ∀ left right, precedes left right = decide (key right < key left))
    {tokens below seen rest : List ℕ} {root candidate : ℕ}
    (selecting : Selecting key tokens (root :: below) seen (candidate :: rest)) :
    ∃ heap last, offer precedes (below.length + 1) (root :: below ++ (seen ++ candidate :: rest))
      (below.length + 1 + seen.length) =
        some (heap ++ (seen ++ last :: rest)) ∧ heap.length = below.length + 1 ∧
          Selecting key tokens heap (seen ++ [last]) rest := by
  obtain ⟨perm, ordered, selects⟩ := selecting
  have least : ∀ chosen ∈ root :: below, key root ≤ key chosen := fun chosen mem => root_le_mem ordered mem
  have found : (root :: below ++ (seen ++ candidate :: rest))[below.length + 1 + seen.length]? = some candidate := by
    rw [List.getElem?_append_right (by simp only [List.length_cons]; lia), List.length_cons, Nat.add_sub_cancel_left,
      List.getElem?_append_right (Nat.le_refl _), Nat.sub_self, List.getElem?_cons_zero]
  rw [offer, found, List.cons_append, List.getElem?_cons_zero]
  simp only [Option.bind_eq_bind, Option.bind_some, is]
  split
  · next greater =>
    replace greater := of_decide_eq_true greater
    have put : ((root :: (below ++ (seen ++ candidate :: rest))).set (below.length + 1 + seen.length) root).set 0 candidate =
        (candidate :: below) ++ (seen ++ root :: rest) := by
      rw [show below.length + 1 + seen.length = below.length + seen.length +
        1 by lia, List.set_cons_succ, List.set_cons_zero,
        List.set_append_right _ _ (by lia), Nat.add_sub_cancel_left, List.set_append_right _ _ (Nat.le_refl _), Nat.sub_self,
        List.set_cons_zero]
      rfl
    have below_ordered : OrderedFrom key (candidate :: below) 1 := by
      intro child positive inside from_
      obtain ⟨child, rfl⟩ := Nat.exists_eq_succ_of_ne_zero (show child ≠ 0 by lia)
      obtain ⟨parent, same⟩ := Nat.exists_eq_succ_of_ne_zero (show (child.succ - 1) / 2 ≠ 0 by lia)
      have edge := ordered child.succ positive inside (Nat.zero_le _)
      rw [same] at edge ⊢
      exact edge
    obtain ⟨heap, sifted, perm', ordered'⟩ := sourceSiftDown_spec is below_ordered
    have size : (candidate :: below).length = below.length + 1 := rfl
    rw [put, List.take_left' size, List.drop_left' size, sifted]
    refine ⟨heap, root, rfl, by rw [perm'.length_eq, List.length_cons], ?_, ordered', fun chosen mem other among => ?_⟩
    · apply (List.perm_iff_count.mpr fun token => ?_).trans perm
      have same := perm'.count_eq token
      simp only [List.count_append, List.count_cons, List.count_nil] at same ⊢
      lia
    · have above : key root ≤ key chosen := by
        rcases List.mem_cons.mp (perm'.mem_iff.mp mem) with rfl | mem
        · exact greater.le
        · exact least chosen (List.mem_cons_of_mem _ mem)
      rcases List.mem_append.mp among with early | late
      · exact (selects root List.mem_cons_self other early).trans above
      · rwa [List.mem_singleton.mp late]
  · next notGreater =>
    rw [decide_eq_true_eq, not_lt] at notGreater
    refine ⟨root :: below, candidate, rfl, rfl, ?_, ordered, fun chosen mem other among => ?_⟩
    · rwa [List.append_assoc, List.singleton_append]
    · rcases List.mem_append.mp among with early | late
      · exact selects chosen mem other early
      · rw [List.mem_singleton.mp late]
        exact notGreater.trans (least chosen mem)

/-- All tokens of the rest are offered. -/
theorem offers_spec (is : ∀ left right, precedes left right = decide (key right < key left)) {tokens heap seen rest : List ℕ}
    (some_ : 0 < heap.length) (selecting : Selecting key tokens heap seen rest) :
    ∃ out others, (List.range' (heap.length + seen.length) rest.length).foldlM (offer precedes heap.length)
      (heap ++ (seen ++ rest)) =
      some (out ++ others) ∧ out.length = heap.length ∧ Selecting key tokens out others [] := by
  induction rest generalizing heap seen with
  | nil =>
    refine ⟨heap, seen, ?_, rfl, selecting⟩
    rw [List.append_nil]
    rfl
  | cons candidate rest ih =>
    obtain ⟨root, below, rfl⟩ := List.exists_cons_of_length_pos some_
    obtain ⟨heap, last, offered, sized, selecting'⟩ := offer_spec is selecting
    rw [List.length_cons, List.length_cons, List.range'_succ, List.foldlM_cons, offered, Option.bind_eq_bind,
      Option.bind_some, ← sized]
    obtain ⟨out, others, result, sized', done⟩ := ih (by omega) selecting'
    refine ⟨out, others, ?_, sized', done⟩
    rw [List.length_append, List.length_singleton, ← Nat.add_assoc, List.append_assoc, List.singleton_append] at result
    exact result

end Spec

/-- The number of a token's logit. -/
def logit (logits : List Single) (token : ℕ) : ℤ := (place logits token).key

theorem precedes_eq {logits : List Single} (numbers : ∀ value ∈ logits, value.isNan = false) (left right : ℕ) :
    precedes logits left right = decide (logit logits right < logit logits left) := by
  have number : ∀ token, (place logits token).isNan = false := by
    intro token
    rw [place, List.getD_eq_getElem?_getD]
    cases found : logits[token]? with
    | none => rfl
    | some value => exact numbers value (List.mem_of_getElem? found)
  rw [precedes, Single.gt, number, number, logit, logit]
  rfl

theorem pairwise_sorted (logits : List Single) (tokens : List ℕ) :
    (tokens.insertionSort (ranks logits)).Pairwise fun left right => logit logits right ≤ logit logits left := by
  have : Std.Total (ranks logits) := ⟨fun left right => by rw [ranks, ranks]; lia⟩
  have : IsTrans ℕ (ranks logits) := ⟨fun _ _ _ first second => by rw [ranks] at *; lia⟩
  apply (List.pairwise_insertionSort (ranks logits) tokens).imp
  intro left right ranked
  apply key_le_of_totalKey
  rw [ranks] at ranked
  lia

/-- The selection ends, keeps every token once, and the selected tokens are the greatest in order. -/
theorem sourcePartialSortOrder_spec (logits : List Single) (topN : ℕ) (numbers : ∀ value ∈ logits, value.isNan = false) :
    ∃ order, sourcePartialSortOrder logits topN = some order ∧ order.Perm (List.range logits.length) ∧
      (order.take (min topN logits.length)).Pairwise (fun left right => logit logits right ≤ logit logits left) ∧
      ∀ chosen ∈ order.take (min topN logits.length), ∀ other ∈ order.drop (min topN logits.length),
        logit logits other ≤ logit logits chosen := by
  have is := precedes_eq numbers
  rw [sourcePartialSortOrder]
  dsimp only
  rw [List.length_range]
  generalize same : min topN logits.length = selected
  have most : selected ≤ logits.length := by lia
  split
  · next none_ =>
    subst none_
    exact ⟨_, rfl, .refl _, .nil, fun chosen mem => nomatch mem⟩
  · next some_ =>
    have length : ((List.range logits.length).take selected).length = selected := by
      rw [List.length_take, List.length_range]
      lia
    obtain ⟨heap, made, perm, ordered⟩ := @heapify_spec _ _ _ (logit logits) is ((List.range logits.length).take selected)
    have sized : heap.length = selected := by rw [perm.length_eq, length]
    obtain ⟨out, others, offered, sized', done⟩ :=
      @offers_spec (precedes logits) _ _ (logit logits) is (List.range logits.length) heap []
      ((List.range logits.length).drop selected) (by lia)
      ⟨(perm.append_right _).trans (by rw [List.nil_append, List.take_append_drop]), ordered, fun _ _ _ mem => nomatch mem⟩
    rw [List.nil_append, List.length_nil, Nat.add_zero, sized, List.length_drop, List.length_range] at offered
    rw [sized] at sized'
    have all : (heap ++ (List.range logits.length).drop selected).length = logits.length := by
      rw [List.length_append, sized, List.length_drop, List.length_range]
      lia
    have sortedPerm := List.perm_insertionSort (ranks logits) out
    have sortedLength : (out.insertionSort (ranks logits)).length = selected := by rw [sortedPerm.length_eq, sized']
    simp only [made, Option.bind_eq_bind, Option.bind_some, all, offered]
    rw [List.take_left' sized', List.drop_left' sized']
    have whole := done.perm
    rw [List.append_nil] at whole
    refine ⟨_, rfl, (sortedPerm.append_right _).trans whole, ?_, ?_⟩
    · rw [List.take_left' sortedLength]
      exact pairwise_sorted logits out
    · rw [List.take_left' sortedLength, List.drop_left' sortedLength]
      exact fun chosen mem => done.selects chosen (sortedPerm.mem_iff.mp mem)

theorem sourcePartialSortOrder_three : ∃ order, sourcePartialSortOrder [0x3f800000, 0xc0000000, 0x40a00000] 2 = some order ∧
    order.Perm (List.range 3) ∧
      (order.take 2).Pairwise (fun left right => logit [0x3f800000, 0xc0000000, 0x40a00000] right ≤
        logit [0x3f800000, 0xc0000000, 0x40a00000] left) ∧
      ∀ chosen ∈ order.take 2, ∀ other ∈ order.drop 2,
        logit [0x3f800000, 0xc0000000, 0x40a00000] other ≤ logit [0x3f800000, 0xc0000000, 0x40a00000] chosen :=
  sourcePartialSortOrder_spec [0x3f800000, 0xc0000000, 0x40a00000] 2 (List.forall_iff_forall_mem.mp ⟨rfl, rfl, rfl⟩)

end Muser.Reply.PartialSort
