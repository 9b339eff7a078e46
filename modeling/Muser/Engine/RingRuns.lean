import Muser.Engine.Ring

/-! # Runs of a plane

Rows arrive one at a time or in batches, planes are reset, and a plane may continue as a detached
copy of its own snapshot. Whatever the order, the plane stays the ring of the rows it has received.
-/

namespace Muser.Engine

/-- What can be done to a plane. A row or a batch is offered at a position; a restore takes a
snapshot of the plane and continues on the detached copy. -/
inductive PlaneOp where
  | append (layer position : ℕ) (row : KvRow)
  | appendBatch (layer startPosition : ℕ) (rows : List KvRow)
  | reset
  | restore

namespace PlaneOp

/-- The rows of an operation have the width of the plane. -/
def Wide (kvDim : ℕ) : PlaneOp → Prop
  | .append _ _ row => row.Wide kvDim
  | .appendBatch _ _ rows => ∀ row ∈ rows, KvRow.Wide row kvDim
  | .reset => True
  | .restore => True

def attempt (kvDim headDim : ℕ) (plane : MetalKvPlane) : PlaneOp → Except MetalModelError MetalKvPlane
  | .append layer position row => plane.appendRow kvDim headDim layer position row
  | .appendBatch layer startPosition rows => plane.appendRows kvDim headDim layer startPosition rows
  | .reset => .ok plane.reset
  | .restore => MetalKvPlane.detachedFrom (plane.snapshot kvDim headDim) kvDim headDim

/-- The rows received since the last reset, once an operation has succeeded. -/
def received (history : List KvRow) : PlaneOp → List KvRow
  | .append _ _ row => history ++ [row]
  | .appendBatch _ _ rows => history ++ rows
  | .reset => []
  | .restore => history

/-- One operation; a refused one changes nothing. -/
def step (kvDim headDim : ℕ) (state : MetalKvPlane × List KvRow) (op : PlaneOp) : MetalKvPlane × List KvRow :=
  match op.attempt kvDim headDim state.1 with
  | .ok next => (next, op.received state.2)
  | .error _ => state

def run (kvDim headDim : ℕ) (state : MetalKvPlane × List KvRow) (ops : List PlaneOp) : MetalKvPlane × List KvRow :=
  ops.foldl (step kvDim headDim) state

variable {kvDim headDim : ℕ} {plane : MetalKvPlane} {history : List KvRow}

/-- A successful operation is at the end of the history and leaves a plane over what was received. -/
theorem attempt_built (built : plane.Built kvDim headDim history) {op : PlaneOp} (wide : op.Wide kvDim)
    {next : MetalKvPlane} (done : op.attempt kvDim headDim plane = .ok next) :
    next.Built kvDim headDim (op.received history) ∧ next.capacity = plane.capacity := by
  cases op with
  | append layer position row =>
    by_cases here : position = history.length
    · subst here
      obtain ⟨appended, extended⟩ := built.appendRow layer wide
      cases done.symm.trans appended
      exact ⟨extended, rfl⟩
    · rw [attempt, MetalKvPlane.appendRow, MetalKvPlane.append, built.expected_eq, if_pos here] at done
      simp [bind, Except.bind] at done
  | appendBatch layer startPosition rows =>
    by_cases here : startPosition = history.length
    · subst here
      by_cases small : plane.len + rows.length < usizeBound
      · cases done.symm.trans (built.appendRows layer wide small)
        exact ⟨built.extend wide, rfl⟩
      · rw [attempt, MetalKvPlane.appendRows, MetalKvPlane.appendBatch, built.expected_eq, if_neg (by simp),
          if_pos (by omega)] at done
        simp [bind, Except.bind] at done
    · rw [attempt, MetalKvPlane.appendRows, MetalKvPlane.appendBatch, built.expected_eq, if_pos here] at done
      simp [bind, Except.bind] at done
  | reset =>
    cases done
    exact ⟨built.reset, rfl⟩
  | restore =>
    by_cases small : plane.len * kvDim < usizeBound
    · obtain ⟨restored, detached, same, capacity, -⟩ := built.detachedFrom small
      cases done.symm.trans detached
      exact ⟨same, capacity⟩
    · rw [attempt, built.snapshot_eq, MetalKvPlane.detachedFrom, checkedMul, if_neg small] at done
      simp at done

theorem step_built {state : MetalKvPlane × List KvRow} (built : state.1.Built kvDim headDim state.2) {op : PlaneOp}
    (wide : op.Wide kvDim) :
    (step kvDim headDim state op).1.Built kvDim headDim (step kvDim headDim state op).2 ∧
      (step kvDim headDim state op).1.capacity = state.1.capacity := by
  rw [step]
  split
  · next next done => exact attempt_built built wide done
  · exact ⟨built, rfl⟩

theorem run_built {state : MetalKvPlane × List KvRow} (built : state.1.Built kvDim headDim state.2) {ops : List PlaneOp}
    (wide : ∀ op ∈ ops, op.Wide kvDim) :
    (run kvDim headDim state ops).1.Built kvDim headDim (run kvDim headDim state ops).2 ∧
      (run kvDim headDim state ops).1.capacity = state.1.capacity := by
  induction ops generalizing state with
  | nil => exact ⟨built, rfl⟩
  | cons op ops ih =>
    obtain ⟨next, capacity⟩ := step_built built (wide op List.mem_cons_self)
    obtain ⟨last, same⟩ := ih next fun op member => wide op (List.mem_cons_of_mem _ member)
    exact ⟨last, same.trans capacity⟩

theorem built_new {capacity : ℕ} (room : 0 < capacity) (whole : headDim ∣ kvDim) {key value : List Half}
    (fits_key : key.length = capacity * kvDim) (fits_value : value.length = capacity * kvDim) (headMajor : Bool) :
    (MetalKvPlane.new key value capacity headMajor).Built kvDim headDim [] :=
  { capacity_pos := room
    whole := whole
    wide := by simp
    fits_key := fits_key
    fits_value := fits_value
    len_eq := (Nat.zero_min _).symm
    originLogical_eq := rfl
    originPhysical_eq := (Nat.zero_mod _).symm
    keys := fun _ _ _ get => by simp at get
    values := fun _ _ _ get => by simp at get }

end PlaneOp

open PlaneOp

/-- After any operations, a plane that has received `n` rows since its last reset has the length and
the origins of a ring at `n`, its snapshot is the last rows in logical order, a batch leaves the plane
that single appends leave, and a restored plane has every held row in the slot where it was. -/
theorem kv_ring_refines_history {capacity kvDim headDim : ℕ} (room : 0 < capacity) (whole : headDim ∣ kvDim)
    (headMajor : Bool) {key value : List Half} (fits_key : key.length = capacity * kvDim)
    (fits_value : value.length = capacity * kvDim) {ops : List PlaneOp} (wide : ∀ op ∈ ops, op.Wide kvDim)
    {plane : MetalKvPlane} {history : List KvRow}
    (reached : run kvDim headDim (MetalKvPlane.new key value capacity headMajor, []) ops = (plane, history)) :
    plane.len = min history.length capacity ∧ plane.originLogical = history.length - plane.len ∧
      plane.originPhysical = plane.originLogical % capacity ∧
      (plane.snapshot kvDim headDim).keyLogical =
        ((history.drop (history.length - plane.len)).map KvRow.key).flatten ∧
      (plane.snapshot kvDim headDim).valueLogical =
        ((history.drop (history.length - plane.len)).map KvRow.value).flatten ∧
      (∀ layer rows, (∀ row ∈ rows, KvRow.Wide row kvDim) → plane.len + rows.length < usizeBound →
        plane.appendRows kvDim headDim layer history.length rows =
          plane.appendEach kvDim headDim layer history.length rows) ∧
      (plane.len * kvDim < usizeBound → ∃ restored,
        MetalKvPlane.detachedFrom (plane.snapshot kvDim headDim) kvDim headDim = .ok restored ∧
          restored.len = plane.len ∧ restored.originLogical = plane.originLogical ∧
          restored.originPhysical = plane.originPhysical ∧
          ∀ position, plane.originLogical ≤ position → position < history.length →
            restored.readRow kvDim headDim (position % capacity) = plane.readRow kvDim headDim (position % capacity)) := by
  obtain ⟨built, same⟩ := @run_built kvDim headDim (MetalKvPlane.new key value capacity headMajor, [])
    (built_new room whole fits_key fits_value headMajor) ops wide
  rw [reached] at built same
  change plane.capacity = capacity at same
  subst same
  refine ⟨built.len_eq, built.originLogical_eq, built.originPhysical_eq, by rw [built.snapshot_eq],
    by rw [built.snapshot_eq], fun layer rows wide small => built.appendRows_eq_appendEach layer wide small, fun small => ?_⟩
  obtain ⟨restored, detached, again, capacity, -⟩ := built.detachedFrom small
  have len : restored.len = plane.len := by rw [again.len_eq, built.len_eq, capacity]
  have origin : restored.originLogical = plane.originLogical := by
    rw [again.originLogical_eq, built.originLogical_eq, len]
  refine ⟨restored, detached, len, origin, ?_, fun position after before => ?_⟩
  · rw [again.originPhysical_eq, built.originPhysical_eq, origin, capacity]
  · have get := List.getElem?_eq_getElem before
    have there := again.readRow_eq (by rwa [origin]) get
    rw [capacity] at there
    rw [there, built.readRow_eq after get]

/-- A row of two equal keys and two equal values. -/
def pairRow (bits : Half) : KvRow := ⟨[bits, bits], [bits, bits]⟩

theorem kv_ring_refines_history_wrapped :
    let plane := (run 2 1 (MetalKvPlane.new (List.replicate 4 0) (List.replicate 4 0) 2 true, [])
      [.append 3 0 (pairRow 5), .appendBatch 3 1 [pairRow 6, pairRow 7], .restore]).1
    plane.originPhysical = plane.originLogical % 2 ∧
      (plane.snapshot 2 1).keyLogical = [6, 6, 7, 7] := by
  have wide : ∀ op ∈ [PlaneOp.append 3 0 (pairRow 5), .appendBatch 3 1 [pairRow 6, pairRow 7], .restore], op.Wide 2 := by
    simp only [List.mem_cons, List.not_mem_nil, or_false, forall_eq_or_imp, forall_eq]
    refine ⟨⟨rfl, rfl⟩, ?_, trivial⟩
    simp only [PlaneOp.Wide, List.mem_cons, List.not_mem_nil, or_false, forall_eq_or_imp, forall_eq]
    exact ⟨⟨rfl, rfl⟩, ⟨rfl, rfl⟩⟩
  have refines := kv_ring_refines_history (by decide) (show 1 ∣ 2 by decide) true
    (show (List.replicate 4 (0 : Half)).length = 2 * 2 from rfl)
    (show (List.replicate 4 (0 : Half)).length = 2 * 2 from rfl) wide rfl
  exact ⟨refines.2.2.1, refines.2.2.2.1.trans (by decide)⟩

end Muser.Engine
