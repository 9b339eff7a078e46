import Mathlib.Data.List.Nodup
import Mathlib.Data.List.Perm.Basic
import Muser.Lib.Rows

/-! # Lists put together of blocks

Nested loops put a list together block by block. When every element tells which block it is of, no element
comes twice; and the ranges of the blocks, one after another, part the positions just as the blocks part
the elements.
-/

namespace Muser

variable {α κ : Type} {keys : List κ} {block : κ → List α} {key : α → κ}

/-- Blocks without repetition are, together, without repetition when an element tells its block. -/
theorem nodup_flatMap_of_key (distinct : keys.Nodup) (each : ∀ index ∈ keys, (block index).Nodup)
    (told : ∀ index ∈ keys, ∀ element ∈ block index, key element = index) : (keys.flatMap block).Nodup := by
  rw [List.nodup_flatMap]
  refine ⟨each, distinct.imp_of_mem fun first second differ => ?_⟩
  intro element here there
  exact differ ((told _ first element here).symm.trans (told _ second element there))

/-- A list without repetition of the numbers below a bound, in some order. -/
theorem perm_range_of {numbers : List ℕ} {bound : ℕ} (nodup : numbers.Nodup)
    (mem : ∀ number, number ∈ numbers ↔ number < bound) :
    numbers.Perm (List.range bound) := by
  rw [List.perm_ext_iff_of_nodup nodup List.nodup_range]
  intro number
  rw [mem, List.mem_range]

/-- The ranges of the blocks that are not empty, from a start on. -/
def blockRanges : ℕ → List (List α) → List (ℕ × ℕ)
  | _, [] => []
  | start, first :: rest =>
    if first = [] then blockRanges start rest else (start, start + first.length) :: blockRanges (start + first.length) rest

/-- Ranges that are not empty and follow one another. -/
inductive Consecutive : ℕ → ℕ → List (ℕ × ℕ) → Prop where
  | done (start : ℕ) : Consecutive start start []
  | range {start middle stop : ℕ} {rest : List (ℕ × ℕ)} (nonempty : start < middle)
      (follows : Consecutive middle stop rest) :
      Consecutive start stop ((start, middle) :: rest)

theorem consecutive_blockRanges (start : ℕ) (blocks : List (List α)) :
    Consecutive start (start + blocks.flatten.length) (blockRanges start blocks) := by
  induction blocks generalizing start with
  | nil => exact .done start
  | cons first rest ih =>
    rw [blockRanges, List.flatten_cons, List.length_append]
    split
    · next empty =>
      rw [empty, List.length_nil, Nat.zero_add]
      exact ih start
    · next some =>
      have positive := List.length_pos_of_ne_nil some
      rw [← Nat.add_assoc]
      exact .range (by omega) (ih _)

theorem start_le_of_mem_blockRanges {start : ℕ} {blocks : List (List α)} {range : ℕ × ℕ}
    (mem : range ∈ blockRanges start blocks) :
    start ≤ range.1 := by
  induction blocks generalizing start with
  | nil => cases mem
  | cons first rest ih =>
    rw [blockRanges] at mem
    split at mem
    · exact ih mem
    · rcases List.mem_cons.mp mem with rfl | later
      · exact le_refl _
      · have after := ih later
        omega

/-- Two positions are in one range. -/
def SameRange (ranges : List (ℕ × ℕ)) (left right : ℕ) : Prop :=
  ∃ range ∈ ranges, (range.1 ≤ left ∧ left < range.2) ∧ range.1 ≤ right ∧ right < range.2

theorem SameRange.symm {ranges : List (ℕ × ℕ)} {left right : ℕ} (same : SameRange ranges left right) :
    SameRange ranges right left := by
  obtain ⟨range, mem, first, second⟩ := same
  exact ⟨range, mem, second, first⟩

/-- Positions are in one range when their elements are of one block. -/
theorem sameRange_iff (distinct : keys.Nodup) (told : ∀ index ∈ keys, ∀ element ∈ block index, key element = index)
    (start : ℕ)
    {left right : ℕ} {first second : α} (foundLeft : (keys.flatMap block)[left]? = some first)
    (foundRight : (keys.flatMap block)[right]? = some second) :
    SameRange (blockRanges start (keys.map block)) (start + left) (start + right) ↔ key first = key second := by
  induction keys generalizing start left right with
  | nil => simp at foundLeft
  | cons index rest ih =>
    rw [List.nodup_cons] at distinct
    rw [List.flatMap_cons] at foundLeft foundRight
    have of_here : ∀ {position : ℕ} {element : α}, position < (block index).length →
        (block index ++ rest.flatMap block)[position]? = some element → key element = index := by
      intro position element inside found
      rw [List.getElem?_append_left inside] at found
      exact told index List.mem_cons_self element (List.mem_of_getElem? found)
    have of_later : ∀ {position : ℕ} {element : α}, (block index).length ≤ position →
        (block index ++ rest.flatMap block)[position]? = some element → key element ≠ index := by
      intro position element outside found
      rw [List.getElem?_append_right outside] at found
      obtain ⟨other, among, mem⟩ := List.mem_flatMap.mp (List.mem_of_getElem? found)
      rw [told other (List.mem_cons_of_mem _ among) element mem]
      rintro rfl
      exact distinct.1 among
    rw [List.map_cons, blockRanges]
    split
    · next empty =>
      rw [empty, List.nil_append] at foundLeft foundRight
      exact ih distinct.2 (fun other among => told other (List.mem_cons_of_mem _ among)) start foundLeft foundRight
    · -- a position of the first block and a later one are in no range together
      have apart : ∀ {near far : ℕ}, near < (block index).length → (block index).length ≤ far →
          ¬SameRange ((start, start + (block index).length) :: blockRanges (start + (block index).length) (rest.map block))
            (start + near) (start + far) := by
        rintro near far inside outside ⟨range, mem, held, held'⟩
        rcases List.mem_cons.mp mem with rfl | later
        · dsimp only at held'
          omega
        · have after := start_le_of_mem_blockRanges later
          omega
      rcases Nat.lt_or_ge left (block index).length with insideLeft | outsideLeft <;>
        rcases Nat.lt_or_ge right (block index).length with insideRight | outsideRight
      · refine iff_of_true ⟨(start, start + (block index).length), List.mem_cons_self, ?_⟩
          ((of_here insideLeft foundLeft).trans (of_here insideRight foundRight).symm)
        dsimp only
        omega
      · refine iff_of_false (apart insideLeft outsideRight) fun same => of_later outsideRight foundRight ?_
        exact same.symm.trans (of_here insideLeft foundLeft)
      · refine iff_of_false (fun same => apart insideRight outsideLeft same.symm) fun same =>
          of_later outsideLeft foundLeft ?_
        exact same.trans (of_here insideRight foundRight)
      · rw [List.getElem?_append_right outsideLeft] at foundLeft
        rw [List.getElem?_append_right outsideRight] at foundRight
        rw [← ih distinct.2 (fun other among => told other (List.mem_cons_of_mem _ among))
          (start + (block index).length) foundLeft
          foundRight, show start + (block index).length + (left - (block index).length) = start + left by omega,
          show start + (block index).length + (right - (block index).length) = start + right by omega]
        refine ⟨fun ⟨range, mem, held⟩ => ?_, fun ⟨range, mem, held⟩ => ⟨range, List.mem_cons_of_mem _ mem, held⟩⟩
        rcases List.mem_cons.mp mem with rfl | later
        · dsimp only at held
          omega
        · exact ⟨range, later, held⟩

end Muser
