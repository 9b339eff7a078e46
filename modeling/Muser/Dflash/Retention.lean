import Muser.Dflash.Context

/-! # Rounds keep the sink and the window

However its rounds are cut, the cache holds the retained rows of what was appended, and the accelerator
holds the same rows in the same places.
-/

namespace Muser.Dflash

open Engine

variable {sink window width tokens room : ℕ} {history added : List (List Single)} {current fresh : List Single}

/-- What one append leaves of one plane. -/
def appendPlane (sink window width tokens : ℕ) (current fresh : List Single) : List Single :=
  if sink + window < tokens then retain sink window width tokens current fresh
  else
    let plane := current ++ fresh.take (tokens * width)
    let total := plane.length / width
    if sink + window < total then drain plane (sink * width) ((total - (sink + window)) * width) else plane

/-- A plane that holds the retained rows of what was appended. -/
structure Retains (sink window width : ℕ) (history : List (List Single)) (plane : List Single) : Prop where
  sized : ∀ row ∈ history, row.length = width
  plane_eq : plane = (sinkWindow sink window history).flatten

/-- The rows of a batch lie at the front of its buffer. -/
structure Brings (width tokens : ℕ) (added : List (List Single)) (fresh : List Single) : Prop where
  sized : ∀ row ∈ added, row.length = width
  count : added.length = tokens
  front : fresh.take (tokens * width) = added.flatten

theorem sized_sinkWindow (sized : ∀ row ∈ history, row.length = width) :
    ∀ row ∈ sinkWindow sink window history, row.length = width := by
  intro row member
  rcases List.mem_append.mp member with front | back
  · exact sized row (List.mem_of_mem_take front)
  · exact sized row (List.mem_of_mem_drop back)

theorem Retains.length (retains : Retains sink window width history current) :
    current.length = min history.length (sink + window) * width := by
  rw [retains.plane_eq, length_flatten_of_sizes (sized_sinkWindow retains.sized), length_sinkWindow]

theorem Retains.sized_append (retains : Retains sink window width history current)
    (brings : Brings width tokens added fresh) : ∀ row ∈ history ++ added, row.length = width := by
  intro row member
  rcases List.mem_append.mp member with old | new
  · exact retains.sized row old
  · exact brings.sized row new

variable {count : ℕ} {buffer : List Single}

theorem Brings.take (brings : Brings width tokens added fresh) (few : count ≤ tokens) :
    fresh.take (count * width) = (added.take count).flatten := by
  rw [← (split_flatten_of_sizes brings.sized _).1, ← brings.front, List.take_take,
    min_eq_left (Nat.mul_le_mul_right width few)]

theorem Brings.slice (brings : Brings width tokens added fresh) (few : count ≤ tokens) :
    Muser.slice fresh ((tokens - count) * width) (count * width) = (added.drop (tokens - count)).flatten := by
  have whole : (tokens - count) * width + count * width = tokens * width := by
    rw [← Nat.add_mul, Nat.sub_add_cancel few]
  rw [← (split_flatten_of_sizes brings.sized _).2, ← brings.front, List.drop_take, Muser.slice]
  congr 1
  omega

/-- One append of any size keeps the law for one plane. -/
theorem Retains.append (row : 0 < width) (retains : Retains sink window width history current)
    (brings : Brings width tokens added fresh) :
    Retains sink window width (history ++ added) (appendPlane sink window width tokens current fresh) := by
  refine ⟨retains.sized_append brings, ?_⟩
  have held : ∀ row ∈ sinkWindow sink window history, row.length = width := sized_sinkWindow retains.sized
  have count := brings.count
  rw [appendPlane]
  split
  · next long =>
    have front : current.take (min (current.length / width) sink * width) = (history.take sink).flatten := by
      rw [retains.length, Nat.mul_div_cancel _ row, retains.plane_eq, (split_flatten_of_sizes held _).1, ← length_sinkWindow,
        ← List.take_take, take_sinkWindow, List.take_of_length_le]
      rw [List.length_take, length_sinkWindow]
      lia
    have missing : sink - min (current.length / width) sink = sink - history.length := by
      rw [retains.length, Nat.mul_div_cancel _ row]
      lia
    rw [retain, front, missing, brings.take (by lia), brings.slice (by lia), sinkWindow_append_of_long (by lia) (by lia),
      count, List.flatten_append, List.flatten_append]
  · next short =>
    have plane : current ++ fresh.take (tokens * width) = (sinkWindow sink window history ++ added).flatten := by
      rw [retains.plane_eq, brings.front, List.flatten_append]
    have sized : ∀ entry ∈ sinkWindow sink window history ++ added, entry.length = width := by
      intro entry member
      rcases List.mem_append.mp member with old | new
      · exact held entry old
      · exact brings.sized entry new
    have total : (current ++ fresh.take (tokens * width)).length / width =
        (sinkWindow sink window history ++ added).length := by
      rw [plane, length_flatten_of_sizes sized, Nat.mul_div_cancel _ row]
    dsimp only
    rw [total]
    split
    · rw [sinkWindow_append, plane, drain, ← Nat.add_mul, (split_flatten_of_sizes sized _).1,
        (split_flatten_of_sizes sized _).2,
        List.flatten_append]
    · next fits =>
      rw [List.length_append] at fits
      rw [plane, sinkWindow_append_of_fits (by lia)]

/-- A buffer of `room` elements that holds the retained rows at its front. -/
structure Mirrors (room sink window width : ℕ) (history : List (List Single)) (buffer : List Single) : Prop where
  sized : ∀ row ∈ history, row.length = width
  fits : (sink + window) * width ≤ room
  length : buffer.length = room
  front : buffer.take (min history.length (sink + window) * width) = (sinkWindow sink window history).flatten

theorem Mirrors.take (mirrors : Mirrors room sink window width history buffer)
    (few : count ≤ min history.length (sink + window)) :
    buffer.take (count * width) = ((sinkWindow sink window history).take count).flatten := by
  rw [← (split_flatten_of_sizes (sized_sinkWindow mirrors.sized) _).1, ← mirrors.front, List.take_take,
    min_eq_left (Nat.mul_le_mul_right width few)]

theorem Mirrors.slice (mirrors : Mirrors room sink window width history buffer) {start : ℕ}
    (inside : start ≤ min history.length (sink + window)) :
    Muser.slice buffer (start * width) ((min history.length (sink + window) - start) * width) =
      ((sinkWindow sink window history).drop start).flatten := by
  have whole : start * width + (min history.length (sink + window) - start) * width =
      min history.length (sink + window) * width := by
    rw [← Nat.add_mul, Nat.add_sub_cancel' inside]
  rw [← (split_flatten_of_sizes (sized_sinkWindow mirrors.sized) _).2, ← mirrors.front, List.drop_take, Muser.slice]
  congr 1
  omega

/-- The window as it lies behind the sink once the retained rows do not fit. -/
def moveWindow (sink window width tokens held : ℕ) (buffer fresh : List Single) : List Single :=
  if window ≤ tokens then splice buffer (sink * width) (slice fresh ((tokens - window) * width) (window * width))
  else
    splice (splice buffer (sink * width) (slice buffer ((held - (window - tokens)) * width) ((window - tokens) * width)))
      ((sink + (window - tokens)) * width) (fresh.take (tokens * width))

theorem Mirrors.moved (mirrors : Mirrors room sink window width history buffer)
    (brings : Brings width tokens added fresh) (exceeds : sink + window < history.length + tokens) :
    (moveWindow sink window width tokens (min history.length (sink + window)) buffer fresh).length = buffer.length ∧
      (moveWindow sink window width tokens (min history.length (sink + window)) buffer fresh).take
        ((sink + window) * width) =
        buffer.take (sink * width) ++ ((history ++ added).drop (history.length + tokens - window)).flatten := by
  have count := brings.count
  have total : sink * width + window * width ≤ buffer.length := by
    rw [← Nat.add_mul, mirrors.length]
    exact mirrors.fits
  have inside : sink * width ≤ buffer.length := by lia
  rw [moveWindow]
  split
  · next wide =>
    have tail : (history ++ added).drop (history.length + tokens - window) = added.drop (tokens - window) := by
      rw [List.drop_append, List.drop_of_length_le (by lia), List.nil_append]
      congr 1
      lia
    have size : (added.drop (tokens - window)).flatten.length = window * width := by
      rw [length_flatten_of_sizes fun row member => brings.sized row (List.mem_of_mem_drop member), List.length_drop, count]
      congr 1
      lia
    have front := take_splice_add (added.drop (tokens - window)).flatten inside 0
    rw [Muser.slice, List.take_zero, List.append_nil, Nat.add_zero, size, ← Nat.add_mul] at front
    rw [brings.slice wide, tail]
    exact ⟨length_splice (by rw [size]; exact total), front⟩
  · next narrow =>
    obtain ⟨prior, priorEq⟩ : ∃ prior, prior = window - tokens := ⟨_, rfl⟩
    rw [← priorEq]
    have kept : (min history.length (sink + window) - (min history.length (sink + window) - prior)) = prior := by lia
    have rows := mirrors.slice (Nat.sub_le (min history.length (sink + window)) prior)
    rw [kept, drop_sinkWindow (by lia)] at rows
    have tail : (history ++ added).drop (history.length + tokens - window) =
        history.drop (history.length - prior) ++ added := by
      rw [List.drop_append_of_le_length (by lia)]
      congr 2
      lia
    have size : (history.drop (history.length - prior)).flatten.length = prior * width := by
      rw [length_flatten_of_sizes fun row member => mirrors.sized row (List.mem_of_mem_drop member), List.length_drop]
      congr 1
      lia
    have size' : added.flatten.length = tokens * width := by rw [length_flatten_of_sizes brings.sized, count]
    have parts : prior * width + tokens * width = window * width := by
      rw [← Nat.add_mul]
      congr 1
      lia
    have first := take_splice_add (history.drop (history.length - prior)).flatten inside 0
    have same : (splice buffer (sink * width) (history.drop (history.length - prior)).flatten).length = buffer.length :=
      length_splice (by lia)
    rw [Muser.slice, List.take_zero, List.append_nil, Nat.add_zero, size, ← Nat.add_mul] at first
    have start : (sink + prior) * width ≤
        (splice buffer (sink * width) (history.drop (history.length - prior)).flatten).length := by
      rw [same, Nat.add_mul]
      lia
    have second := take_splice_add added.flatten start 0
    have reach : (sink + prior) * width + tokens * width = (sink + window) * width := by
      rw [← Nat.add_mul]
      congr 1
      lia
    rw [Muser.slice, List.take_zero, List.append_nil, Nat.add_zero, size', first, reach] at second
    have length : (splice (splice buffer (sink * width) (history.drop (history.length - prior)).flatten)
        ((sink + prior) * width) added.flatten).length =
          (splice buffer (sink * width) (history.drop (history.length - prior)).flatten).length :=
      length_splice (by rw [same, size', reach, Nat.add_mul]; exact total)
    rw [rows, brings.front, second, length, same, tail, List.flatten_append, List.append_assoc]
    exact ⟨rfl, rfl⟩

/-- The front of the sink is completed last. -/
def completeSink (sink width held : ℕ) (buffer fresh : List Single) : List Single :=
  if 0 < sink - min held sink then splice buffer (min held sink * width) (fresh.take ((sink - min held sink) * width))
  else buffer

theorem Mirrors.completed {buffer moved : List Single} (mirrors : Mirrors room sink window width history buffer)
    (brings : Brings width tokens added fresh) (exceeds : sink + window < history.length + tokens)
    (length : moved.length = buffer.length) (front : moved.take ((sink + window) * width) =
      buffer.take (sink * width) ++ ((history ++ added).drop (history.length + tokens - window)).flatten) :
    (completeSink sink width (min history.length (sink + window)) moved fresh).length = buffer.length ∧
      (completeSink sink width (min history.length (sink + window)) moved fresh).take ((sink + window) * width) =
        (sinkWindow sink window (history ++ added)).flatten := by
  have count := brings.count
  have total : (sink + window) * width ≤ buffer.length := mirrors.length ▸ mirrors.fits
  have target : sinkWindow sink window (history ++ added) =
      (history ++ added).take sink ++ (history ++ added).drop (history.length + tokens - window) := by
    rw [sinkWindow, List.length_append, count, max_eq_right (by lia)]
  rw [target, List.flatten_append]
  generalize ((history ++ added).drop (history.length + tokens - window)).flatten = tail at front ⊢
  have held : min (min history.length (sink + window)) sink = min history.length sink := by lia
  rw [completeSink, held]
  split
  · next partly =>
    have short : history.length ≤ sink := by lia
    rw [min_eq_left short]
    have scaled : history.length * width ≤ sink * width := Nat.mul_le_mul_right width short
    have split' := Nat.add_mul sink window width
    have reach : history.length * width + (sink - history.length) * width = sink * width := by
      rw [← Nat.add_mul, Nat.add_sub_cancel' short]
    have taken : (buffer.take (sink * width)).length = sink * width := List.length_take_of_le (by lia)
    have start : moved.take (history.length * width) = history.flatten := by
      have rows := mirrors.take (show history.length ≤ _ by lia)
      rw [sinkWindow_of_length_le (by lia), List.take_length] at rows
      have before := congrArg (List.take (history.length * width)) front
      rwa [List.take_take, min_eq_left (by lia), List.take_append_of_le_length (by lia), List.take_take,
        min_eq_left scaled, rows] at before
    have rest : Muser.slice moved (sink * width) (window * width) = tail := by
      have behind := congrArg (List.drop (sink * width)) front
      rwa [List.drop_take, List.drop_left' taken, split', Nat.add_sub_cancel_left] at behind
    have size : ((added.take (sink - history.length)).flatten).length = (sink - history.length) * width := by
      rw [length_flatten_of_sizes fun row member => brings.sized row (List.mem_of_mem_take member), List.length_take]
      congr 1
      lia
    have copied := take_splice_add (added.take (sink - history.length)).flatten
      (show history.length * width ≤ moved.length by lia) (window * width)
    rw [size, reach, ← split', start, rest] at copied
    rw [brings.take (by lia), length_splice (by lia), copied, List.take_append, List.take_of_length_le short,
      List.flatten_append, List.append_assoc]
    exact ⟨length, rfl⟩
  · rw [front, mirrors.take (by lia), take_sinkWindow, List.take_append_of_le_length (by lia)]
    exact ⟨length, rfl⟩

/-- Appending in place keeps the same rows in the same places. -/
theorem Mirrors.append (mirrors : Mirrors room sink window width history buffer)
    (brings : Brings width tokens added fresh) :
    Mirrors room sink window width (history ++ added)
      (appendCachedRows buffer fresh width (min history.length (sink + window)) sink window tokens) := by
  have count := brings.count
  have enough : (sink + window) * width ≤ buffer.length := mirrors.length ▸ mirrors.fits
  have sized : ∀ row ∈ history ++ added, row.length = width := by
    intro row member
    rcases List.mem_append.mp member with old | new
    · exact mirrors.sized row old
    · exact brings.sized row new
  have scaled : ∀ {left right : ℕ}, left ≤ right → left * width ≤ right * width := Nat.mul_le_mul_right width
  unfold appendCachedRows
  dsimp only
  split
  · next fits =>
    have size : added.flatten.length = tokens * width := by rw [length_flatten_of_sizes brings.sized, count]
    rcases Nat.lt_or_ge (sink + window) history.length with full | short
    · -- Nothing fits any more: the round is empty.
      have none : added = [] := List.length_eq_zero_iff.mp (by lia)
      have empty : fresh.take (tokens * width) = [] := by rw [brings.front, none, List.flatten_nil]
      rw [empty, splice, List.length_nil, Nat.add_zero, List.nil_append, List.take_append_drop, none, List.append_nil]
      exact mirrors
    · have inside : history.length * width ≤ buffer.length := by
        exact le_trans (scaled short) enough
      have within : history.length * width + added.flatten.length ≤ buffer.length := by
        rw [size, ← Nat.add_mul]
        exact le_trans (scaled (by lia)) enough
      have front := take_splice_add added.flatten inside 0
      have before := mirrors.front
      rw [min_eq_left short] at before fits ⊢
      rw [Muser.slice, List.take_zero, List.append_nil, Nat.add_zero, size, ← Nat.add_mul, before] at front
      rw [brings.front]
      refine ⟨sized, mirrors.fits, (length_splice within).trans mirrors.length, ?_⟩
      rw [List.length_append, count, min_eq_left fits, front, sinkWindow_of_length_le short,
        sinkWindow_of_length_le (by rw [List.length_append]; lia), List.flatten_append]
  · next exceeds =>
    have big : sink + window < history.length + tokens := by lia
    have sinkRows : min sink (min history.length (sink + window) + tokens) = sink := by lia
    have tailRows : min window (min history.length (sink + window) + tokens - sink) = window := by lia
    obtain ⟨length, front⟩ := mirrors.moved brings big
    obtain ⟨length, front⟩ := mirrors.completed brings big length front
    rw [sinkRows, tailRows]
    refine ⟨sized, mirrors.fits, length.trans mirrors.length, ?_⟩
    · rw [List.length_append, count, min_eq_right (by lia)]
      exact front

end Muser.Dflash
