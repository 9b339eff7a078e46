import Mathlib.Data.List.Basic
import Mathlib.Data.List.Perm.Basic
import Mathlib.Logic.Function.Basic

/-! # Lending

Values that live in numbered places and are lent to holders one at a time, with a list of the places whose
value is at home. Taking a value and giving it back keep every value in exactly one place.
-/

namespace Muser

variable {α : Type}

/-- The element at the position goes, and the last one takes its place. -/
def swapRemove (list : List α) (position : ℕ) : List α :=
  match list.getLast? with
  | some last => (list.set position last).dropLast
  | none => []

theorem swapRemove_perm {list : List α} {position : ℕ} {value : α} (at_ : list[position]? = some value) :
    list.Perm (value :: swapRemove list position) := by
  obtain ⟨rest, last, rfl⟩ : ∃ rest last, list = rest ++ [last] := by
    rcases list.eq_nil_or_concat with rfl | ⟨rest, last, rfl⟩
    · cases at_
    · exact ⟨rest, last, List.concat_eq_append⟩
  have found : swapRemove (rest ++ [last]) position = ((rest ++ [last]).set position last).dropLast := by
    simp [swapRemove]
  rw [found]
  rcases Nat.lt_or_ge position rest.length with inside | past
  · rw [List.getElem?_append_left inside] at at_
    rw [List.set_append_left _ _ inside, List.dropLast_concat]
    obtain ⟨bound, rfl⟩ := List.getElem?_eq_some_iff.mp at_
    have moved : (rest[position] :: rest.set position last).Perm (last :: rest) := by
      have split := List.take_append_drop position rest
      have dropped : rest.drop position = rest[position] :: rest.drop (position + 1) := List.drop_eq_getElem_cons bound
      rw [List.set_eq_take_append_cons_drop, if_pos bound]
      calc (rest[position] :: (rest.take position ++ last :: rest.drop (position + 1))).Perm
            (rest[position] :: last :: (rest.take position ++ rest.drop (position + 1))) :=
          List.Perm.cons _ List.perm_middle
        _ |>.Perm (last :: rest[position] :: (rest.take position ++ rest.drop (position + 1))) := List.Perm.swap ..
        _ |>.Perm (last :: (rest.take position ++ rest[position] :: rest.drop (position + 1))) :=
          List.Perm.cons _ List.perm_middle.symm
        _ = last :: rest := by rw [← dropped, split]
    exact (List.perm_append_singleton ..).trans moved.symm
  · have here : position = rest.length := by
      have bound := (List.getElem?_eq_some_iff.mp at_).1
      rw [List.length_append, List.length_singleton] at bound
      omega
    subst here
    simp at at_
    subst at_
    simp

/-- Every value is at home, where the list says so, or with at most one holder. -/
structure Lending (home : α → ℕ) (places : List (Option α)) (free : List ℕ) (holder : ℕ → Option (ℕ × α)) : Prop where
  nodup : free.Nodup
  mem_free_iff : ∀ index, index ∈ free ↔ ∃ value, places[index]? = some (some value)
  home_eq : ∀ index value, places[index]? = some (some value) → home value = index
  lent : ∀ who index value, holder who = some (index, value) → home value = index ∧ places[index]? = some none
  alone : ∀ who other index value value',
    holder who = some (index, value) → holder other = some (index, value') → who = other

/-- No value is lost. -/
def Whole (places : List (Option α)) (holder : ℕ → Option (ℕ × α)) : Prop :=
  ∀ index, places[index]? = some none → ∃ who value, holder who = some (index, value)

/-- What one holder does with the places: nothing, take a value, give its value back, or change it. -/
inductive Shift (home : α → ℕ) (places : List (Option α)) (free : List ℕ) :
    Option (ℕ × α) → List (Option α) → List ℕ → Option (ℕ × α) → Prop
  | keep (held : Option (ℕ × α)) : Shift home places free held places free held
  | take {index : ℕ} {value : α} {rest : List ℕ} (perm : free.Perm (index :: rest))
      (there : places[index]? = some (some value)) :
      Shift home places free none (places.set index none) rest (some (index, value))
  | give {index : ℕ} {value value' : α} (house : home value' = home value) :
      Shift home places free (some (index, value)) (places.set index (some value')) (free ++ [index]) none
  | alter {index : ℕ} {value value' : α} (house : home value' = home value) :
      Shift home places free (some (index, value)) places free (some (index, value'))

theorem Shift.length_eq {home : α → ℕ} {places places' : List (Option α)} {free free' : List ℕ}
    {held held' : Option (ℕ × α)} (shift : Shift home places free held places' free' held') :
    places'.length = places.length := by
  cases shift <;> simp

namespace Lending

variable {home : α → ℕ} {places : List (Option α)} {free : List ℕ} {holder : ℕ → Option (ℕ × α)}

theorem present (lending : Lending home places free holder) {index : ℕ} (mem : index ∈ free) :
    ∃ value, places[index]? = some (some value) := (lending.mem_free_iff index).mp mem

variable {who index : ℕ} {value value' : α} {places' : List (Option α)} {held : Option (ℕ × α)} {free' : List ℕ}

/-- A value leaves its place for a holder that has none. -/
theorem take (lending : Lending home places free holder) {value : α} {rest : List ℕ}
    (perm : free.Perm (index :: rest)) (there : places[index]? = some (some value)) (without : holder who = none) :
    Lending home (places.set index none) rest (Function.update holder who (some (index, value))) := by
  have bound : index < places.length := (List.getElem?_eq_some_iff.mp there).1
  have nodup : (index :: rest).Nodup := perm.nodup_iff.mp lending.nodup
  have apart : ∀ other, other ≠ index → (places.set index none)[other]? = places[other]? :=
    fun other differ => List.getElem?_set_ne differ.symm
  have here : (places.set index none)[index]? = some none := List.getElem?_set_self bound
  refine ⟨nodup.of_cons, fun other => ?_, fun other found is => ?_, fun someone other found is => ?_,
    fun someone another other found found' is is' => ?_⟩
  · rcases eq_or_ne other index with rfl | differ
    · rw [here]
      simpa using (List.nodup_cons.mp nodup).1
    · rw [apart other differ, ← lending.mem_free_iff other, perm.mem_iff, List.mem_cons, or_iff_right differ]
  · rcases eq_or_ne other index with rfl | differ
    · rw [here] at is
      cases is
    · rw [apart other differ] at is
      exact lending.home_eq other found is
  · rcases eq_or_ne someone who with rfl | different
    · rw [Function.update_self] at is
      cases is
      exact ⟨lending.home_eq index value there, here⟩
    · rw [Function.update_of_ne different] at is
      obtain ⟨house, empty⟩ := lending.lent someone other found is
      rcases eq_or_ne other index with rfl | differ
      · exact ⟨house, here⟩
      · exact ⟨house, (apart other differ).trans empty⟩
  · have taken : ∀ person thing, person ≠ who → Function.update holder who (some (index, value)) person =
      some (index, thing) →
        False := by
      intro person thing different is
      rw [Function.update_of_ne different] at is
      rw [(lending.lent person index thing is).2] at there
      cases there
    rcases eq_or_ne someone who with rfl | different <;> rcases eq_or_ne another someone with rfl | different'
    · rfl
    · rw [Function.update_self] at is
      cases is
      exact (taken another found' different' is').elim
    · rfl
    · rcases eq_or_ne another who with rfl | different''
      · rw [Function.update_self] at is'
        cases is'
        exact (taken someone found different is).elim
      · rw [Function.update_of_ne different] at is
        rw [Function.update_of_ne different''] at is'
        exact lending.alone someone another other found found' is is'

/-- A holder gives its value back, changed or not. -/
theorem give (lending : Lending home places free holder)
    (holds : holder who = some (index, value)) (house : home value' = index) :
    Lending home (places.set index (some value')) (free ++ [index]) (Function.update holder who none) := by
  have empty : places[index]? = some none := (lending.lent who index value holds).2
  have bound : index < places.length := (List.getElem?_eq_some_iff.mp empty).1
  have apart : ∀ other, other ≠ index → (places.set index (some value'))[other]? = places[other]? :=
    fun other differ => List.getElem?_set_ne differ.symm
  have here : (places.set index (some value'))[index]? = some (some value') := List.getElem?_set_self bound
  have absent : index ∉ free := by
    intro mem
    obtain ⟨found, there⟩ := lending.present mem
    rw [empty] at there
    cases there
  have left : ∀ someone other found, Function.update holder who none someone = some (other, found) →
      holder someone = some (other, found) ∧ other ≠ index := by
    intro someone other found is
    rcases eq_or_ne someone who with rfl | different
    · rw [Function.update_self] at is
      cases is
    · rw [Function.update_of_ne different] at is
      refine ⟨is, ?_⟩
      rintro rfl
      exact different (lending.alone someone who other found value is holds)
  refine ⟨?_, fun other => ?_, fun other found is => ?_, fun someone other found is => ?_,
    fun someone another other found found' is is' => ?_⟩
  · rw [(List.perm_append_singleton index free).nodup_iff, List.nodup_cons]
    exact ⟨absent, lending.nodup⟩
  · rw [List.mem_append, List.mem_singleton]
    rcases eq_or_ne other index with rfl | differ
    · rw [here]
      simp
    · rw [apart other differ, ← lending.mem_free_iff other, or_iff_left differ]
  · rcases eq_or_ne other index with rfl | differ
    · rw [here] at is
      cases is
      exact house
    · rw [apart other differ] at is
      exact lending.home_eq other found is
  · obtain ⟨held, differ⟩ := left someone other found is
    obtain ⟨its, away⟩ := lending.lent someone other found held
    exact ⟨its, (apart other differ).trans away⟩
  · exact lending.alone someone another other found found' (left someone other found is).1 (left another other found' is').1

/-- A holder changes what it holds. -/
theorem alter (lending : Lending home places free holder)
    (holds : holder who = some (index, value)) (house : home value' = index) :
    Lending home places free (Function.update holder who (some (index, value'))) := by
  have held : ∀ someone other found, Function.update holder who (some (index, value')) someone = some (other, found) →
      home found = other ∧ ∃ before, holder someone = some (other, before) := by
    intro someone other found is
    rcases eq_or_ne someone who with rfl | different
    · rw [Function.update_self] at is
      cases is
      exact ⟨house, value, holds⟩
    · rw [Function.update_of_ne different] at is
      exact ⟨(lending.lent someone other found is).1, found, is⟩
  refine ⟨lending.nodup, lending.mem_free_iff, lending.home_eq, fun someone other found is => ?_,
    fun someone another other found found' is is' => ?_⟩
  · obtain ⟨its, before, is⟩ := held someone other found is
    exact ⟨its, (lending.lent someone other before is).2⟩
  · obtain ⟨-, before, is⟩ := held someone other found is
    obtain ⟨-, before', is'⟩ := held another other found' is'
    exact lending.alone someone another other before before' is is'

/-- A value that is lost with its holder. -/
theorem lose (lending : Lending home places free holder) (who : ℕ) :
    Lending home places free (Function.update holder who none) := by
  have left : ∀ someone other found, Function.update holder who none someone = some (other, found) →
      holder someone = some (other, found) := by
    intro someone other found is
    rcases eq_or_ne someone who with rfl | different
    · rw [Function.update_self] at is
      cases is
    · rwa [Function.update_of_ne different] at is
  refine ⟨lending.nodup, lending.mem_free_iff, lending.home_eq, fun someone other found is => ?_,
    fun someone another other found found' is is' => ?_⟩
  · exact lending.lent someone other found (left someone other found is)
  · exact lending.alone someone another other found found' (left someone other found is) (left another other found' is')

theorem shift (lending : Lending home places free holder) {who : ℕ}
    (shift : Shift home places free (holder who) places' free' held) :
    Lending home places' free' (Function.update holder who held) := by
  generalize is : holder who = before at shift
  cases shift with
  | keep => rwa [← is, Function.update_eq_self]
  | take perm there => exact lending.take perm there is
  | give house => exact lending.give is (house.trans (lending.lent who _ _ is).1)
  | alter house => exact lending.alter is (house.trans (lending.lent who _ _ is).1)

/-- No shift loses a value. -/
theorem whole_shift (lending : Lending home places free holder) (whole : Whole places holder) {who : ℕ}
        (shift : Shift home places free (holder who) places' free' held) :
          Whole places' (Function.update holder who held) := by
  generalize is : holder who = before at shift
  cases shift with
  | keep => rwa [← is, Function.update_eq_self]
  | take perm there =>
    rename_i index value
    intro other empty
    rcases eq_or_ne other index with rfl | differ
    · exact ⟨who, value, Function.update_self ..⟩
    · rw [List.getElem?_set_ne differ.symm] at empty
      obtain ⟨someone, found, holds⟩ := whole other empty
      have different : someone ≠ who := by
        rintro rfl
        rw [is] at holds
        cases holds
      exact ⟨someone, found, (Function.update_of_ne different ..).trans holds⟩
  | give house =>
    rename_i index value value'
    intro other empty
    rcases eq_or_ne other index with rfl | differ
    · have bound := (List.getElem?_eq_some_iff.mp (lending.lent who other value is).2).1
      rw [List.getElem?_set_self bound] at empty
      cases empty
    · rw [List.getElem?_set_ne differ.symm] at empty
      obtain ⟨someone, found, holds⟩ := whole other empty
      have different : someone ≠ who := by
        rintro rfl
        rw [is] at holds
        cases holds
        exact differ rfl
      exact ⟨someone, found, (Function.update_of_ne different ..).trans holds⟩
  | alter house =>
    rename_i index value value'
    intro other empty
    obtain ⟨someone, found, holds⟩ := whole other empty
    rcases eq_or_ne someone who with rfl | different
    · rw [is] at holds
      cases holds
      exact ⟨someone, value', Function.update_self ..⟩
    · exact ⟨someone, found, (Function.update_of_ne different ..).trans holds⟩

end Lending

end Muser
