import Muser.Lib.Text

/-! # Texts with markers

A text may be written around markers that something else is put in the place of later: it is cut at the first
occurrence of each marker in turn. The parts that are cut out are the ones that the text was woven of exactly
when none of them has the marker that follows it.
-/

namespace Muser

variable {α : Type} {pattern before : List α} {gaps markers : List (List α)}

/-- The parts with a marker between every two of them. -/
def weave : List (List α) → List (List α) → List α
  | [], _ => []
  | gap :: _, [] => gap
  | gap :: gaps, marker :: markers => gap ++ marker ++ weave gaps markers

theorem clear_of_absent {first : α} {rest : List α} (unbordered : first ∉ rest) (absent : ¬first :: rest <:+: before) :
    Clear (first :: rest) before := by
  apply apart_of_absent absent
  intro tail mem
  rcases List.suffix_cons_iff.mp ((List.mem_tails _ _).mp mem) with whole | inside
  · exact Or.inr (Or.inl whole)
  · cases tail with
    | nil => exact Or.inl rfl
    | cons other tail =>
      refine Or.inr (Or.inr fun starts => ?_)
      rw [List.cons_prefix_cons] at starts
      exact unbordered (starts.1 ▸ inside.subset List.mem_cons_self)

theorem Clear.absent (nonempty : pattern ≠ []) (clear : Clear pattern before) : ¬pattern <:+: before := by
  rintro ⟨left, right, rfl⟩
  refine clear left (pattern ++ right) (List.append_assoc _ _ _) (fun none => nonempty (List.append_eq_nil_iff.mp none).1) ?_
  rw [List.append_assoc]
  exact List.prefix_append _ _

variable [DecidableEq α]

/-- The parts before the markers, each found from where the last one ended, and the part that is left. -/
def cuts : List α → List (List α) → Option (List (List α))
  | cursor, [] => some [cursor]
  | cursor, marker :: markers =>
    (splitOnce marker cursor).bind fun both => (cuts both.2 markers).map (both.1 :: ·)

/-- A marker that starts with an element it does not have again. -/
def Unbordered (marker : List α) : Prop := ∃ first rest, marker = first :: rest ∧ first ∉ rest

/-- What is cut out of a text is what it was woven of exactly when no part has the marker that follows it. -/
theorem cuts_weave_iff (unbordered : ∀ marker ∈ markers, Unbordered marker) (lengths : gaps.length = markers.length + 1) :
    cuts (weave gaps markers) markers = some gaps ↔ ∀ pair ∈ gaps.zip markers, ¬pair.2 <:+: pair.1 := by
  induction markers generalizing gaps with
  | nil =>
    obtain ⟨gap, rfl⟩ := List.length_eq_one_iff.mp lengths
    simp [weave, cuts]
  | cons marker markers ih =>
    match gaps, lengths with
    | gap :: gaps, lengths =>
      obtain ⟨first, rest, rfl, once⟩ := unbordered marker List.mem_cons_self
      have later := ih (fun marker mem => unbordered marker (List.mem_cons_of_mem _ mem)) (Nat.succ.inj lengths)
      simp only [weave, cuts, Option.bind_eq_some_iff, Option.map_eq_some_iff, List.cons.injEq, List.zip_cons_cons,
        List.forall_mem_cons]
      rw [← later]
      constructor
      · rintro ⟨⟨front, behind⟩, found, others, cut, same, same'⟩
        obtain ⟨is, clear⟩ := (splitOnce_eq_some (List.cons_ne_nil _ _)).mp found
        dsimp only at same cut
        subst same same'
        rw [List.append_cancel_left_eq] at is
        rw [is]
        exact ⟨clear.absent (List.cons_ne_nil _ _), cut⟩
      · rintro ⟨absent, cut⟩
        exact ⟨(gap, weave gaps markers), (splitOnce_eq_some (List.cons_ne_nil _ _)).mpr
          ⟨rfl, clear_of_absent once absent⟩, gaps, cut, rfl, rfl⟩

end Muser
