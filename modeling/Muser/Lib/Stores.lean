import Mathlib.Algebra.BigOperators.Intervals
import Mathlib.Algebra.BigOperators.Ring.Finset
import Mathlib.Data.List.Perm.Basic
import Muser.Lib.Rows

/-! # Stores and weighted sums

A loop that fills a buffer is a list of stores. When their indices are those of the whole buffer, in any order,
then the weighted sum of the buffer is the sum of the stores, each with its weight; and so a loop that sums as it
decodes is compared with one that decodes first, without looking at the order.
-/

namespace Muser

variable {R : Type}

/-- Put values where they belong, one after another. -/
def storeAll (buffer : List R) (stores : List (ℕ × R)) : List R :=
  stores.foldl (fun buffer store => buffer.set store.1 store.2) buffer

variable {buffer : List R} {stores : List (ℕ × R)}

@[simp] theorem length_storeAll (buffer : List R) (stores : List (ℕ × R)) :
    (storeAll buffer stores).length = buffer.length := by
  induction stores generalizing buffer with
  | nil => rfl
  | cons store stores ih => exact (ih _).trans (List.length_set ..)

/-- What no store names is left. -/
theorem getElem?_storeAll_of_notMem {index : ℕ} (other : index ∉ stores.map Prod.fst) :
    (storeAll buffer stores)[index]? = buffer[index]? := by
  induction stores generalizing buffer with
  | nil => rfl
  | cons store stores ih =>
    rw [List.map_cons, List.mem_cons, not_or] at other
    exact (ih other.2).trans (List.getElem?_set_ne (Ne.symm other.1))

theorem getElem?_storeAll_of_mem (once : (stores.map Prod.fst).Nodup) {store : ℕ × R} (mem : store ∈ stores)
    (inside : store.1 < buffer.length) :
    (storeAll buffer stores)[store.1]? = some store.2 := by
  induction stores generalizing buffer with
  | nil => cases mem
  | cons first stores ih =>
    rw [List.map_cons, List.nodup_cons] at once
    rcases List.mem_cons.mp mem with rfl | mem
    · exact (getElem?_storeAll_of_notMem once.1).trans (List.getElem?_set_self inside)
    · exact ih once.2 mem (by rwa [List.length_set])

/-- The stores fill a buffer of a size. -/
def Fills (size : ℕ) (stores : List (ℕ × R)) : Prop := (stores.map Prod.fst).Perm (List.range size)

/-- A filled buffer does not depend on what was there before. -/
theorem Fills.storeAll_eq {size : ℕ} {other : List R} (fills : Fills size stores) (length : buffer.length = size)
    (length' : other.length = size) :
    storeAll buffer stores = storeAll other stores := by
  have once : (stores.map Prod.fst).Nodup := fills.nodup_iff.mpr List.nodup_range
  apply List.ext_getElem?
  intro index
  by_cases inside : index < size
  · obtain ⟨store, mem, rfl⟩ := List.mem_map.mp (fills.mem_iff.mpr (List.mem_range.mpr inside))
    rw [getElem?_storeAll_of_mem once mem (length ▸ inside), getElem?_storeAll_of_mem once mem (length' ▸ inside)]
  · rw [List.getElem?_eq_none (by rw [length_storeAll]; omega), List.getElem?_eq_none (by rw [length_storeAll]; omega)]

section Sums

variable [CommRing R]

/-- The sum of the stores, each with the weight of its index. -/
def weigh (weights : ℕ → R) (stores : List (ℕ × R)) : R := (stores.map fun store => store.2 * weights store.1).sum

@[simp] theorem weigh_nil (weights : ℕ → R) : weigh weights [] = 0 := rfl

@[simp] theorem weigh_cons (weights : ℕ → R) (store : ℕ × R) (stores : List (ℕ × R)) :
    weigh weights (store :: stores) = store.2 * weights store.1 + weigh weights stores := rfl

theorem weigh_append (weights : ℕ → R) (first second : List (ℕ × R)) :
    weigh weights (first ++ second) = weigh weights first + weigh weights second := by
  rw [weigh, List.map_append, List.sum_append]
  rfl

/-- The stores of a loop are weighed turn by turn. -/
theorem weigh_loop (weights : ℕ → R) (turns : ℕ) (stores : ℕ → List (ℕ × R)) :
    weigh weights ((List.range turns).flatMap stores) = ∑ turn ∈ Finset.range turns, weigh weights (stores turn) := by
  induction turns with
  | zero => rfl
  | succ turns ih =>
    rw [List.range_succ, List.flatMap_append, weigh_append, ih, List.flatMap_singleton, Finset.sum_range_succ]

/-- A loop that adds to an accumulator in each turn. -/
theorem foldl_range_eq {step : R → ℕ → R} {value : ℕ → R} (steps : ∀ acc turn, step acc turn = acc + value turn)
    (turns : ℕ) (acc : R) :
    (List.range turns).foldl step acc = acc + ∑ turn ∈ Finset.range turns, value turn := by
  induction turns with
  | zero => exact (add_zero acc).symm
  | succ turns ih =>
    rw [List.range_succ, List.foldl_append, ih, List.foldl_cons, List.foldl_nil, steps, Finset.sum_range_succ, add_assoc]

/-- The weighted sum of a buffer that stores fill. -/
theorem Fills.sum_eq {size : ℕ} (fills : Fills size stores) (length : buffer.length = size) (weights : ℕ → R) :
    ∑ index ∈ Finset.range size, (storeAll buffer stores).getD index 0 * weights index = weigh weights stores := by
  have once : (stores.map Prod.fst).Nodup := fills.nodup_iff.mpr List.nodup_range
  have each : stores.map (fun store => store.2 * weights store.1) =
      (stores.map Prod.fst).map fun index => (storeAll buffer stores).getD index 0 * weights index := by
    rw [List.map_map]
    apply List.map_congr_left
    intro store mem
    have inside : store.1 < size := List.mem_range.mp (fills.mem_iff.mp (List.mem_map_of_mem mem))
    rw [Function.comp_apply, List.getD_eq_getElem?_getD, getElem?_storeAll_of_mem once mem (length ▸ inside),
      Option.getD_some]
  rw [weigh, each, (fills.map _).sum_eq]
  exact Multiset.sum_coe ((List.range size).map _)

/-- A sum taken in blocks. -/
theorem sum_blocks (count size : ℕ) (value : ℕ → R) :
    ∑ index ∈ Finset.range (count * size), value index =
      ∑ block ∈ Finset.range count, ∑ index ∈ Finset.range size, value (block * size + index) := by
  induction count with
  | zero => rw [Nat.zero_mul]; rfl
  | succ count ih => rw [Nat.succ_mul, Finset.sum_range_add, ih, Finset.sum_range_succ]

end Sums

end Muser
