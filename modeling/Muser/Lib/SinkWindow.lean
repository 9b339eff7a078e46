import Muser.Lib.Rows

/-! # A sink and a window

Of the rows received so far only the first `sink` and the last `window` are retained. What is retained
determines what will be retained after more rows, so the retention can be carried out incrementally: by
dropping rows behind the sink, or by moving them.
-/

namespace Muser

variable {α : Type} {sink window : ℕ} {rows fresh : List α}

/-- The rows retained of those received. -/
def sinkWindow (sink window : ℕ) (rows : List α) : List α := rows.take sink ++ rows.drop (max sink (rows.length - window))

theorem length_sinkWindow : (sinkWindow sink window rows).length = min rows.length (sink + window) := by
  rw [sinkWindow, List.length_append, List.length_take, List.length_drop]
  omega

theorem map_sinkWindow {β : Type} (change : α → β) :
    (sinkWindow sink window rows).map change = sinkWindow sink window (rows.map change) := by
  rw [sinkWindow, sinkWindow, List.map_append, List.map_take, List.map_drop, List.length_map]

/-- The window counted from its front. -/
theorem sinkWindow_eq (sink window : ℕ) (rows : List α) :
    sinkWindow sink window rows =
      rows.take (min rows.length sink) ++ rows.drop (rows.length - min window (rows.length - sink)) := by
  rw [sinkWindow]
  rcases Nat.le_total rows.length sink with short | long
  · rw [List.take_of_length_le short, min_eq_left short, List.take_length, List.drop_of_length_le (by omega),
      List.drop_of_length_le (by omega)]
  · rw [min_eq_right long]
    congr 2
    omega

/-- Where everything fits, everything is retained. -/
theorem sinkWindow_of_length_le (fits : rows.length ≤ sink + window) : sinkWindow sink window rows = rows := by
  rw [sinkWindow]
  rcases Nat.le_total rows.length sink with short | long
  · rw [List.take_of_length_le short, List.drop_of_length_le (by omega), List.append_nil]
  · rw [max_eq_left (by omega), List.take_append_drop]

theorem take_sinkWindow : (sinkWindow sink window rows).take sink = rows.take sink := by
  rw [sinkWindow, List.take_append, List.take_take, Nat.min_self, List.length_take]
  rcases Nat.le_total rows.length sink with short | long
  · rw [List.drop_of_length_le (l := rows) (by omega), List.take_nil, List.append_nil]
  · rw [min_eq_left long, Nat.sub_self, List.take_zero, List.append_nil]

/-- The last rows are among those retained. -/
theorem drop_sinkWindow {count : ℕ} (few : count ≤ window) :
    (sinkWindow sink window rows).drop (min rows.length (sink + window) - count) = rows.drop (rows.length - count) := by
  rcases Nat.le_total rows.length (sink + window) with fits | exceeds
  · rw [sinkWindow_of_length_le fits, min_eq_left fits]
  · have front : (rows.take sink).length = sink := List.length_take_of_le (by lia)
    rw [sinkWindow, min_eq_right exceeds, max_eq_right (by lia), show sink + window - count = sink + (window - count) by lia,
      ← List.drop_drop, List.drop_left' front, List.drop_drop]
    congr 1
    lia

/-- More rows: what falls out is behind the sink. -/
theorem sinkWindow_append (rows fresh : List α) :
    sinkWindow sink window (rows ++ fresh) =
      (sinkWindow sink window rows ++ fresh).take sink ++
        (sinkWindow sink window rows ++ fresh).drop
          (sink + ((sinkWindow sink window rows ++ fresh).length - (sink + window))) := by
  rcases Nat.le_total rows.length (sink + window) with fits | exceeds
  · rw [sinkWindow_of_length_le fits, sinkWindow, List.length_append]
    congr 2
    lia
  · have held : (sinkWindow sink window rows).length = sink + window := by
      rw [length_sinkWindow]
      lia
    have front : (rows ++ fresh).take sink = (sinkWindow sink window rows ++ fresh).take sink := by
      rw [List.take_append_of_le_length (by lia), List.take_append_of_le_length (by lia), take_sinkWindow]
    have back : (rows ++ fresh).drop (rows.length + fresh.length - window) =
        (sinkWindow sink window rows ++ fresh).drop (sink + fresh.length) := by
      have start : sinkWindow sink window rows ++ fresh = rows.take sink ++ (rows ++ fresh).drop (rows.length - window) := by
        rw [sinkWindow, max_eq_right (by lia), List.drop_append_of_le_length (by lia), List.append_assoc]
      have front : (rows.take sink).length = sink := by
        rw [List.length_take]
        lia
      have behind : ∀ rest : List α, (rows.take sink ++ rest).drop (sink + fresh.length) = rest.drop fresh.length := by
        intro rest
        rw [← List.drop_drop, List.drop_left' front]
      rw [start, behind, List.drop_drop]
      congr 1
      lia
    rw [sinkWindow, front, List.length_append, max_eq_right (by lia), back, List.length_append, held]
    congr 2
    lia

/-- As long as everything fits behind what is retained, rows are only added. -/
theorem sinkWindow_append_of_fits (fits : (sinkWindow sink window rows).length + fresh.length ≤ sink + window) :
    sinkWindow sink window (rows ++ fresh) = sinkWindow sink window rows ++ fresh := by
  rw [sinkWindow_append, List.length_append, Nat.sub_eq_zero_of_le fits, Nat.add_zero, List.take_append_drop]

/-- A block longer than what is retained brings the whole window. -/
theorem sinkWindow_append_of_long (long : window ≤ fresh.length) (exceeds : sink + window < rows.length + fresh.length) :
    sinkWindow sink window (rows ++ fresh) =
      rows.take sink ++ fresh.take (sink - rows.length) ++ fresh.drop (fresh.length - window) := by
  rw [sinkWindow, List.take_append, List.length_append, max_eq_right (by lia), List.drop_append,
    List.drop_of_length_le (by lia), List.nil_append]
  congr 2
  lia

/-- The place in the stream of a retained row. -/
def retainedPosition (sink window count row : ℕ) : ℕ :=
  if row < min count sink then row else count - (min count (sink + window) - min count sink) + (row - min count sink)

theorem getElem?_sinkWindow {row : ℕ} (held : row < min rows.length (sink + window)) :
    (sinkWindow sink window rows)[row]? = rows[retainedPosition sink window rows.length row]? := by
  rw [sinkWindow, List.getElem?_append, List.length_take, retainedPosition, Nat.min_comm sink]
  split
  · next inside => rw [List.getElem?_take_of_lt (by lia)]
  · next outside =>
    rw [List.getElem?_drop]
    congr 1
    lia

/-- The slot of a position: the sink stays in place, the window is a ring behind it. -/
def ringSlot (sink window position : ℕ) : ℕ :=
  if position < sink then position else sink + (position - sink) % window

theorem ringSlot_lt (room : 0 < window) (position : ℕ) : ringSlot sink window position < sink + window := by
  rw [ringSlot]
  split
  · omega
  · exact Nat.add_lt_add_left (Nat.mod_lt _ room) _

/-- Retained rows have different slots. -/
theorem ringSlot_injective {count row other : ℕ} (held : row < min count (sink + window))
    (held' : other < min count (sink + window)) (same : ringSlot sink window (retainedPosition sink window count row) =
      ringSlot sink window (retainedPosition sink window count other)) : row = other := by
  have near : ∀ {left right : ℕ}, sink ≤ left → left ≤ right → right < left + window →
      (left - sink) % window = (right - sink) % window → left = right := by
    intro left right above le close mods
    have apart : (right - left) % window = 0 := by
      have sub := Nat.sub_mod_eq_zero_of_mod_eq mods.symm
      rwa [show right - sink - (left - sink) = right - left by lia] at sub
    rw [Nat.mod_eq_of_lt (by lia)] at apart
    lia
  unfold ringSlot retainedPosition at same
  split at same <;> split at same <;> split at same <;> split at same <;> try lia
  rcases Nat.le_total row other with le | le
  · have := near (by lia) (by lia) (by lia) (Nat.add_left_cancel same)
    lia
  · have := near (by lia) (by lia) (by lia) (Nat.add_left_cancel same).symm
    lia

end Muser
