import Mathlib.Data.List.AList
import Muser.Lib.Check

/-! # Finite tables with string keys

A `Table` is a list of entries with distinct keys: a map in memory, or the files of one directory.
The lemmas state every update through `lookup`; iteration is over the entries.
-/

namespace Muser

/-- A finite map from strings. -/
abbrev Table (α : Type) := AList fun _ : String => α

namespace Table

variable {α β ε : Type}

theorem lookup_insert_eq (table : Table α) (key other : String) (value : α) :
    AList.lookup other (table.insert key value) = if other = key then some value else table.lookup other := by
  by_cases same : other = key
  · subst same
    simp
  · rw [AList.lookup_insert_ne same, if_neg same]

variable {table : Table α} {key other : String} {value : α} {test : (Σ _ : String, α) → Bool}

/-- A new key leaves every entry in place. -/
theorem lookup_insert_fresh {value existing : α}
    (fresh : table.lookup key = none) (found : table.lookup other = some existing) :
    (table.insert key value).lookup other = some existing := by
  rw [lookup_insert_eq, if_neg, found]
  rintro rfl
  rw [fresh] at found
  cases found

/-- An entry after an insertion is the new one or an old one. -/
theorem lookup_insert_cases {value stored : α} (found : (table.insert key value).lookup other = some stored) :
    (other = key ∧ stored = value) ∨ (other ≠ key ∧ table.lookup other = some stored) := by
  rw [lookup_insert_eq] at found
  split at found
  · rename_i same
    exact .inl ⟨same, (Option.some.inj found).symm⟩
  · rename_i different
    exact .inr ⟨different, found⟩

theorem lookup_insert_eq_none
    (absent : (table.insert key value).lookup other = none) : other ≠ key ∧ table.lookup other = none := by
  rw [lookup_insert_eq] at absent
  split at absent
  · cases absent
  · rename_i different
    exact ⟨different, absent⟩

theorem lookup_erase_eq_some
    (found : (table.erase key).lookup other = some value) : other ≠ key ∧ table.lookup other = some value := by
  by_cases same : other = key
  · subst same
    rw [AList.lookup_erase] at found
    cases found
  · rw [AList.lookup_erase_ne same] at found
    exact ⟨same, found⟩

theorem lookup_erase_eq (table : Table α) (key other : String) :
    AList.lookup other (table.erase key) = if other = key then none else table.lookup other := by
  by_cases same : other = key
  · subst same
    simp
  · rw [AList.lookup_erase_ne same, if_neg same]

theorem mem_entries_iff {entry : Σ _ : String, α} :
    entry ∈ table.entries ↔ table.lookup entry.1 = some entry.2 := by
  rw [← Option.mem_def, AList.mem_lookup_iff]

theorem mem_of_lookup {key : String} (found : table.lookup key = some value) :
    ⟨key, value⟩ ∈ table.entries := mem_entries_iff.mpr found

/-- An empty table has no values. -/
theorem lookup_of_entries_nil (empty : table.entries = []) (key : String) :
    table.lookup key = none := by
  cases found : table.lookup key with
  | none => rfl
  | some value =>
    have member := mem_of_lookup found
    rw [empty] at member
    cases member

/-- Keep the entries whose key is accepted. -/
def retain (keep : String → Bool) (table : Table α) : Table α :=
  ⟨table.entries.filter fun entry => keep entry.1, table.nodupKeys.sublist List.filter_sublist⟩

theorem lookup_retain (keep : String → Bool) (table : Table α) (key : String) :
    AList.lookup key (retain keep table) = if keep key = true then table.lookup key else none := by
  ext value
  have kept : (retain keep table).lookup key = some value ↔
      keep key = true ∧ table.lookup key = some value := by
    have left : ⟨key, value⟩ ∈ (retain keep table).entries ↔ (retain keep table).lookup key = some value :=
      mem_entries_iff
    have right : ⟨key, value⟩ ∈ table.entries ↔ table.lookup key = some value := mem_entries_iff
    rw [← left, ← right, retain, List.mem_filter, and_comm]
  rw [kept]
  split <;> simp_all

theorem length_erase {key : String} (found : table.lookup key = some value) :
    (table.erase key).entries.length + 1 = table.entries.length := by
  have member : key ∈ table.keys := by
    rw [← AList.mem_keys, ← AList.lookup_isSome, found]
    rfl
  have shorter := congrArg List.length (AList.keys_erase key table)
  rw [List.length_erase_of_mem member] at shorter
  have positive := List.length_pos_of_mem member
  simp only [AList.keys, List.keys, List.length_map] at shorter positive
  omega

/-- Whether some entry satisfies a test. -/
theorem any_entries_eq_true :
    table.entries.any test = true ↔ ∃ key value, table.lookup key = some value ∧ test ⟨key, value⟩ = true := by
  rw [List.any_eq_true]
  constructor
  · rintro ⟨entry, member, tested⟩
    exact ⟨entry.1, entry.2, mem_entries_iff.mp member, tested⟩
  · rintro ⟨key, value, found, tested⟩
    exact ⟨⟨key, value⟩, mem_entries_iff.mpr found, tested⟩

theorem any_entries_eq_false :
    table.entries.any test = false ↔ ∀ key value, table.lookup key = some value → test ⟨key, value⟩ = false := by
  rw [← Bool.not_eq_true, any_entries_eq_true]
  constructor
  · intro absent key value found
    exact Bool.eq_false_iff.mpr fun tested => absent ⟨key, value, found, tested⟩
  · rintro passes ⟨key, value, found, tested⟩
    simp [passes key value found] at tested

/-- A loop of validators over a table accepts exactly when every entry is accepted. -/
theorem forM_entries_eq_ok_iff {check : (Σ _ : String, α) → Except ε Unit} :
    forM table.entries check = .ok () ↔ ∀ key value, table.lookup key = some value → check ⟨key, value⟩ = .ok () := by
  rw [forM_eq_ok_iff]
  constructor
  · intro accepted key value found
    exact accepted ⟨key, value⟩ (mem_entries_iff.mpr found)
  · intro accepted entry member
    exact accepted entry.1 entry.2 (mem_entries_iff.mp member)

/-- Two entries kept by a test that singles out one key are the same entry. -/
theorem filter_entries_length_le_one
    (single : ∀ key value other value', table.lookup key = some value → test ⟨key, value⟩ = true →
      table.lookup other = some value' → test ⟨other, value'⟩ = true → key = other) :
    (table.entries.filter test).length ≤ 1 := by
  have distinct : (table.entries.filter test).Nodup :=
    (List.NodupKeys.nodup table.nodupKeys).sublist List.filter_sublist
  cases shape : table.entries.filter test with
  | nil => simp
  | cons first rest =>
    cases rest with
    | nil => simp
    | cons second rest =>
      have firstIn : first ∈ table.entries.filter test := by simp [shape]
      have secondIn : second ∈ table.entries.filter test := by simp [shape]
      rw [List.mem_filter, mem_entries_iff] at firstIn secondIn
      have sameKey := single first.1 first.2 second.1 second.2 firstIn.1 firstIn.2 secondIn.1 secondIn.2
      have sameValue : first.2 = second.2 := by
        have := firstIn.1.symm.trans (sameKey ▸ secondIn.1)
        exact Option.some.inj this
      have same : first = second := by
        cases first
        cases second
        simp_all
      rw [shape, same] at distinct
      simp at distinct

end Table

end Muser
