import Muser.AuthoritativeVerifier.Sample
import Muser.Gateway.Messages
import Mathlib.Data.List.Sort
import Mathlib.Order.Basic

/-! # Fragments of a result, in any order

The target hands its fragments to the gateway in any order and more than once; the gateway puts them in
the order of their ordinals before it signs them. The source collects them the same way from the frames
of the gateway. What was put together depends on which fragments came, not on when or how often.
-/

namespace Muser.Gateway

open Verifier

section Assembler

variable {p : Primitives}

/-- An assembler before its first payload. -/
def waiting (p : Primitives) (resultSha256 : String) (descriptors : List FragmentDescriptorV2) : FragmentAssemblerV2 p where
  resultSha256 := resultSha256
  slots := descriptors.map fun descriptor => (descriptor, none)
  described := by
    intro slot member payload stored
    obtain ⟨descriptor, _, rfl⟩ := List.mem_map.mp member
    cases stored

theorem new_eq_ok {result : AuthenticatedResultV2} {request : AuthenticatedRoundV2} {session : SessionCoreV2}
    {assembler : FragmentAssemblerV2 p} (made : FragmentAssemblerV2.new result request session = .ok assembler) :
    assembler = waiting p (result.recordDigest p) result.core.fragments := by
  rw [FragmentAssemblerV2.new, check_eq_ok_iff] at made
  exact (Except.ok.inj made.2).symm

/-- The assembler after an insertion, which may be refused. -/
def after (assembler : FragmentAssemblerV2 p) (arrival : UInt32 × Bytes) : FragmentAssemblerV2 p :=
  (assembler.insert arrival.1 arrival.2).2

def afterAll (assembler : FragmentAssemblerV2 p) (arrivals : List (UInt32 × Bytes)) : FragmentAssemblerV2 p :=
  arrivals.foldl after assembler

/-- An arrival that carries the bytes committed for an ordinal. -/
def carries (p : Primitives) (index : ℕ) (descriptor : FragmentDescriptorV2) (arrival : UInt32 × Bytes) : Bool :=
  arrival.1.toNat = index && arrival.2.length = descriptor.byteLen.toNat && p.sha256Hex arrival.2 = descriptor.sha256

variable {arrival : UInt32 × Bytes} {index : ℕ} {arrivals others : List (UInt32 × Bytes)}

theorem carries_iff {descriptor : FragmentDescriptorV2} :
    carries p index descriptor arrival = true ↔ arrival.1.toNat = index ∧ descriptor.Describes p arrival.2 := by
  rw [carries, Bool.and_eq_true, Bool.and_eq_true, decide_eq_true_iff, decide_eq_true_iff, decide_eq_true_iff,
    and_assoc, FragmentDescriptorV2.Describes]

/-- The first arrival that carries the committed bytes. -/
def firstCarried (p : Primitives) (index : ℕ) (descriptor : FragmentDescriptorV2) (arrivals : List (UInt32 × Bytes)) :
    Option Bytes :=
  (arrivals.find? (carries p index descriptor)).map Prod.snd

/-- The slot at an index once the arrival has been offered to it. -/
def offered (p : Primitives) (index : ℕ) (arrival : UInt32 × Bytes) (slot : FragmentDescriptorV2 × Option Bytes) :
    FragmentDescriptorV2 × Option Bytes :=
  (slot.1, slot.2.or (if carries p index slot.1 arrival then some arrival.2 else none))

theorem offered_of_not_carries {slot : FragmentDescriptorV2 × Option Bytes}
    (other : ¬carries p index slot.1 arrival = true) : offered p index arrival slot = slot := by
  rw [offered, if_neg other, Option.or_none]

/-- An insertion is taken as new exactly if its slot is empty and its bytes are the committed ones. -/
theorem insert_fresh_iff (assembler : FragmentAssemblerV2 p) (ordinal : UInt32) (payload : Bytes) :
    (assembler.insert ordinal payload).1 = .ok true ↔
      ∃ descriptor, assembler.slots[ordinal.toNat]? = some (descriptor, none) ∧ descriptor.Describes p payload := by
  rw [FragmentAssemblerV2.insert]
  split
  · next missing =>
    rw [missing]
    exact iff_of_false (by rintro ⟨⟩) (by rintro ⟨_, ⟨⟩, _⟩)
  · next descriptor received found =>
    rw [found]
    split
    · next described =>
      cases received with
      | none => exact iff_of_true rfl ⟨descriptor, rfl, described⟩
      | some existing =>
        dsimp only
        split
        · exact iff_of_false (by rintro ⟨⟩) (by rintro ⟨_, ⟨⟩, _⟩)
        · exact iff_of_false (by rintro ⟨⟩) (by rintro ⟨_, ⟨⟩, _⟩)
    · next other =>
      refine iff_of_false (by rintro ⟨⟩) ?_
      rintro ⟨_, ⟨⟩, described⟩
      exact other described

/-- An insertion that is refused, or that repeats what is there, leaves the assembler as it was. -/
theorem insert_stale (assembler : FragmentAssemblerV2 p) (ordinal : UInt32) (payload : Bytes)
    (stale : (assembler.insert ordinal payload).1 ≠ .ok true) : (assembler.insert ordinal payload).2 = assembler := by
  revert stale
  rw [FragmentAssemblerV2.insert]
  split
  · exact fun _ => rfl
  · split
    · split
      · split
        · exact fun _ => rfl
        · exact fun _ => rfl
      · exact fun stale => absurd rfl stale
    · exact fun _ => rfl

/-- An insertion fills the slot it addresses, if that is empty and the bytes are the committed ones, and no other. -/
theorem slots_after (assembler : FragmentAssemblerV2 p) (arrival : UInt32 × Bytes) (index : ℕ) :
    (after assembler arrival).slots[index]? = (assembler.slots[index]?).map (offered p index arrival) := by
  rw [after]
  by_cases fresh : (assembler.insert arrival.1 arrival.2).1 = .ok true
  · obtain ⟨descriptor, found, described⟩ := (insert_fresh_iff assembler arrival.1 arrival.2).mp fresh
    have filled : (assembler.insert arrival.1 arrival.2).2.slots = assembler.slots.set arrival.1.toNat (descriptor,
        some arrival.2) := by
      rw [FragmentAssemblerV2.insert, found]
      dsimp only
      split
      · rfl
      · next other => exact absurd described other
    rw [filled]
    rcases eq_or_ne arrival.1.toNat index with rfl | other
    · have inside : arrival.1.toNat < assembler.slots.length := (List.getElem?_eq_some_iff.mp found).1
      rw [List.getElem?_set_self inside, found, Option.map_some, offered,
        if_pos (carries_iff.mpr ⟨rfl, described⟩), Option.none_or]
    · rw [List.getElem?_set_ne other]
      cases assembler.slots[index]? with
      | none => rfl
      | some slot => rw [Option.map_some, offered_of_not_carries fun mine => other (carries_iff.mp mine).1]
  · rw [insert_stale assembler arrival.1 arrival.2 fresh]
    cases here : assembler.slots[index]? with
    | none => rfl
    | some slot =>
      rw [Option.map_some]
      by_cases mine : carries p index slot.1 arrival = true
      · obtain ⟨rfl, described⟩ := carries_iff.mp mine
        obtain ⟨descriptor, received⟩ := slot
        cases received with
        | none => exact absurd ((insert_fresh_iff assembler arrival.1 arrival.2).mpr ⟨descriptor, here, described⟩) fresh
        | some held => rfl
      · rw [offered_of_not_carries mine]

theorem slots_afterAll (assembler : FragmentAssemblerV2 p) (arrivals : List (UInt32 × Bytes)) (index : ℕ) :
    (afterAll assembler arrivals).slots[index]? = (assembler.slots[index]?).map fun slot =>
      (slot.1, slot.2.or (firstCarried p index slot.1 arrivals)) := by
  induction arrivals generalizing assembler with
  | nil =>
    cases here : assembler.slots[index]? with
    | none => exact here
    | some slot =>
      refine here.trans (congrArg some ?_)
      dsimp only [firstCarried]
      rw [List.find?_nil, Option.map_none, Option.or_none]
  | cons arrival arrivals ih =>
    rw [afterAll, List.foldl_cons]
    refine (ih (after assembler arrival)).trans ?_
    rw [slots_after, Option.map_map]
    refine congrFun (congrArg Option.map (funext fun slot => ?_)) _
    dsimp only [Function.comp_apply, offered, firstCarried]
    rw [Option.or_assoc, List.find?_cons]
    cases mine : carries p index slot.1 arrival with
    | true => rw [if_pos rfl, Option.some_or, Option.map_some]
    | false => rw [if_neg Bool.false_ne_true, Option.none_or]

/-- What the slots hold after the arrivals, from a fresh assembler. -/
theorem slots_waiting (resultSha256 : String) (descriptors : List FragmentDescriptorV2)
    (arrivals : List (UInt32 × Bytes)) (index : ℕ) :
    (afterAll (waiting p resultSha256 descriptors) arrivals).slots[index]? = (descriptors[index]?).map fun descriptor =>
      (descriptor, firstCarried p index descriptor arrivals) := by
  rw [slots_afterAll, waiting, List.getElem?_map, Option.map_map]
  rfl

theorem resultSha256_after (assembler : FragmentAssemblerV2 p) (arrival : UInt32 × Bytes) :
    (after assembler arrival).resultSha256 = assembler.resultSha256 := by
  rw [after, FragmentAssemblerV2.insert]
  split
  · rfl
  · split
    · split
      · split
        · rfl
        · rfl
      · rfl
    · rfl

theorem resultSha256_afterAll (assembler : FragmentAssemblerV2 p) (arrivals : List (UInt32 × Bytes)) :
    (afterAll assembler arrivals).resultSha256 = assembler.resultSha256 := by
  induction arrivals generalizing assembler with
  | nil => rfl
  | cons arrival arrivals ih => exact (ih (after assembler arrival)).trans (resultSha256_after assembler arrival)

/-- No two of the payloads have the same digest. -/
def CollisionFree (p : Primitives) (payloads : List Bytes) : Prop :=
  ∀ left ∈ payloads, ∀ right ∈ payloads, p.sha256Hex left = p.sha256Hex right → left = right

/-- Which bytes fill a slot depends on what arrived, not on the order. -/
theorem firstCarried_congr (same : ∀ arrival, arrival ∈ arrivals ↔ arrival ∈ others)
    (collisionFree : CollisionFree p (arrivals.map Prod.snd)) (index : ℕ) (descriptor : FragmentDescriptorV2) :
    firstCarried p index descriptor arrivals = firstCarried p index descriptor others := by
  rw [firstCarried, firstCarried]
  cases first : arrivals.find? (carries p index descriptor) with
  | none =>
    have nothing : others.find? (carries p index descriptor) = none :=
      List.find?_eq_none.mpr fun arrival member => List.find?_eq_none.mp first arrival ((same arrival).mpr member)
    rw [nothing]
  | some arrival =>
    have member := List.mem_of_find?_eq_some first
    have mine := List.find?_some first
    cases second : others.find? (carries p index descriptor) with
    | none => exact absurd mine (List.find?_eq_none.mp second arrival ((same arrival).mp member))
    | some other =>
      have digests := (carries_iff.mp mine).2.2.trans (carries_iff.mp (List.find?_some second)).2.2.symm
      have present := (same other).mpr (List.mem_of_find?_eq_some second)
      rw [Option.map_some, Option.map_some, collisionFree arrival.2 (List.mem_map_of_mem member) other.2
        (List.mem_map_of_mem present) digests]

/-- Equal assemblers have equal slots. -/
theorem assembler_ext {left right : FragmentAssemblerV2 p} (digests : left.resultSha256 = right.resultSha256)
    (slots : left.slots = right.slots) : left = right := by
  cases left
  cases right
  cases digests
  cases slots
  rfl

/-- The arrivals in another order, and repeated or not, leave the same assembler. -/
theorem afterAll_congr (resultSha256 : String) (descriptors : List FragmentDescriptorV2)
    (same : ∀ arrival, arrival ∈ arrivals ↔ arrival ∈ others) (collisionFree : CollisionFree p (arrivals.map Prod.snd)) :
    afterAll (waiting p resultSha256 descriptors) arrivals = afterAll (waiting p resultSha256 descriptors) others := by
  refine assembler_ext ?_ (List.ext_getElem? fun index => ?_)
  · rw [resultSha256_afterAll, resultSha256_afterAll]
  · rw [slots_waiting, slots_waiting]
    refine congrFun (congrArg Option.map (funext fun descriptor => ?_)) _
    rw [firstCarried_congr same collisionFree]

/-- Every fragment of the manifest has arrived with its committed bytes. -/
def Complete (p : Primitives) (descriptors : List FragmentDescriptorV2) (arrivals : List (UInt32 × Bytes)) : Prop :=
  ∀ index descriptor, descriptors[index]? = some descriptor →
    ∃ arrival ∈ arrivals, arrival.1.toNat = index ∧ descriptor.Describes p arrival.2

/-- The assembler finishes exactly when everything has arrived, and the closure lists the manifest in its order. -/
theorem finish_waiting (resultSha256 : String) (descriptors : List FragmentDescriptorV2) (arrivals : List (UInt32 × Bytes)) :
    (∃ closure, (afterAll (waiting p resultSha256 descriptors) arrivals).finish = .ok closure) ↔
      Complete p descriptors arrivals := by
  have slots := slots_waiting (p := p) resultSha256 descriptors arrivals
  rw [FragmentAssemblerV2.finish]
  constructor
  · rintro ⟨closure, finished⟩ index descriptor found
    rw [check_eq_ok_iff, reject_eq_ok_iff] at finished
    have here := slots index
    rw [found, Option.map_some] at here
    have filled := List.any_eq_false.mp finished.1 _ (List.mem_of_getElem? here)
    rw [Bool.not_eq_true, Option.isNone_eq_false_iff, Option.isSome_iff_exists] at filled
    obtain ⟨payload, carried⟩ := filled
    obtain ⟨arrival, first, rfl⟩ := Option.map_eq_some_iff.mp carried
    exact ⟨arrival, List.mem_of_find?_eq_some first, carries_iff.mp (List.find?_some first)⟩
  · intro complete
    refine ⟨_, check_eq_ok_iff.mpr ⟨reject_eq_ok_iff.mpr (List.any_eq_false.mpr fun slot member => ?_), rfl⟩⟩
    obtain ⟨index, here⟩ := List.mem_iff_getElem?.mp member
    rw [slots index] at here
    obtain ⟨descriptor, found, rfl⟩ := Option.map_eq_some_iff.mp here
    obtain ⟨arrival, arrived, carries_⟩ := complete index descriptor found
    rw [Bool.not_eq_true, Option.isNone_eq_false_iff, firstCarried, Option.isSome_map, List.find?_isSome]
    exact ⟨arrival, arrived, carries_iff.mpr carries_⟩

theorem map_filled {slots : List (FragmentDescriptorV2 × Option Bytes)} (full : slots.any (·.2.isNone) = false) :
    (slots.filterMap FragmentAssemblerV2.filled).map (fun fragment => (fragment.descriptor, some fragment.payload)) =
      slots := by
  induction slots with
  | nil => rfl
  | cons slot slots ih =>
    rw [List.any_cons, Bool.or_eq_false_iff] at full
    obtain ⟨descriptor, received⟩ := slot
    cases received with
    | none => exact absurd full.1 (Bool.noConfusion)
    | some payload =>
      have present : FragmentAssemblerV2.filled (descriptor, some payload) = some ⟨descriptor, payload⟩ := rfl
      rw [List.filterMap_cons, present, List.map_cons, ih full.2]

/-- A closure lists the manifest in its order, each fragment with bytes that arrived for it. -/
theorem finish_listed {resultSha256 : String} {descriptors : List FragmentDescriptorV2} {arrivals : List (UInt32 × Bytes)}
    {closure : VerifiedClosureV2 p}
    (finished : (afterAll (waiting p resultSha256 descriptors) arrivals).finish = .ok closure) :
    closure.resultSha256 = resultSha256 ∧ closure.fragments.map (·.descriptor) = descriptors ∧
      ∀ (index : ℕ) (fragment : VerifiedFragmentV2), closure.fragments[index]? = some fragment →
        ∃ arrival ∈ arrivals, arrival.1.toNat = index ∧ arrival.2 = fragment.payload := by
  rw [FragmentAssemblerV2.finish, check_eq_ok_iff, reject_eq_ok_iff] at finished
  obtain ⟨full, rfl⟩ := finished.imp id Except.ok.inj
  have slots := map_filled full
  have described := congrArg (List.map Prod.fst) slots
  rw [List.map_map] at described
  refine ⟨resultSha256_afterAll _ _, described.trans (List.ext_getElem? fun index => ?_), fun index fragment here => ?_⟩
  · rw [List.getElem?_map, slots_waiting, Option.map_map]
    exact (congrFun Option.map_id _ : Option.map id _ = _)
  · have slot := congrArg (fun slots : List (FragmentDescriptorV2 × Option Bytes) => slots[index]?) slots
    dsimp only at slot here
    rw [List.getElem?_map, here, slots_waiting, Option.map_some, eq_comm, Option.map_eq_some_iff] at slot
    obtain ⟨descriptor, -, both⟩ := slot
    obtain ⟨arrival, first, carried⟩ := Option.map_eq_some_iff.mp (congrArg Prod.snd both)
    exact ⟨arrival, List.mem_of_find?_eq_some first, (carries_iff.mp (List.find?_some first)).1, carried⟩

end Assembler

inductive VerifierGatewayErrorV1 where
  | validation (message : String)
  | verifier (error : VerifierV2Error)
deriving DecidableEq

def gatewayInvalid (message : String) : VerifierGatewayErrorV1 := .validation message

section Target

def maxRawFragmentOccurrencesV1 : ℕ := maxFragmentsV2 * 2

def defaultVerifierGatewayPayloadBytesV1 : ℕ := 64 * 1024 * 1024

structure RawTargetFragmentV1 where
  ordinal : UInt32
  componentId : String
  kind : FragmentKindV2
  logicalStart : UInt64
  logicalCount : UInt64
  payloadAbi : String
  bytesPerLogicalRow : UInt64
  payload : Bytes
deriving DecidableEq

structure RawTargetEvaluationV1 where
  decision : ResultDecisionV2
  postVerifySamplerState : SamplerStateV2
  fragments : List RawTargetFragmentV1

/-- Insertion into a map that is ordered by ordinal and has none of this ordinal. -/
def insertOrdered (fragment : RawTargetFragmentV1) : List RawTargetFragmentV1 → List RawTargetFragmentV1
  | [] => [fragment]
  | first :: rest =>
    if fragment.ordinal < first.ordinal then fragment :: first :: rest else first :: insertOrdered fragment rest

/-- One fragment of each ordinal; a repeated one must be the same. -/
def collectUnique (unique : List RawTargetFragmentV1) :
    List RawTargetFragmentV1 → Except VerifierGatewayErrorV1 (List RawTargetFragmentV1)
  | [] => .ok unique
  | fragment :: rest =>
    if defaultVerifierGatewayPayloadBytesV1 < fragment.payload.length then
      .error (gatewayInvalid "raw target fragment exceeds the gateway wire payload limit")
    else match unique.find? fun existing => existing.ordinal = fragment.ordinal with
      | some existing =>
        if existing ≠ fragment then .error (gatewayInvalid "duplicate raw target fragment differs")
          else collectUnique unique rest
      | none => collectUnique (insertOrdered fragment unique) rest

def RawTargetFragmentV1.descriptor (p : Primitives) (fragment : RawTargetFragmentV1) : FragmentDescriptorV2 where
  ordinal := fragment.ordinal
  componentId := fragment.componentId
  kind := fragment.kind
  logicalStart := fragment.logicalStart
  logicalCount := fragment.logicalCount
  payloadAbi := fragment.payloadAbi
  bytesPerLogicalRow := fragment.bytesPerLogicalRow
  byteLen := UInt64.ofNat fragment.payload.length
  sha256 := p.sha256Hex fragment.payload

/-- The signed result and the payloads by ordinal. -/
def materializeTargetResult (p : Primitives) (session : SessionCoreV2) (targetSigner : TargetSigningKeyV2)
    (request : AuthenticatedRoundV2) (evaluation : RawTargetEvaluationV1) (nowUnixMs : UInt64) :
    Except VerifierGatewayErrorV1 (AuthenticatedResultV2 × List (UInt32 × Bytes)) := do
  reject (maxRawFragmentOccurrencesV1 < evaluation.fragments.length)
    (gatewayInvalid "raw target fragment occurrence count exceeds bounds")
  let unique ← collectUnique [] evaluation.fragments
  reject (maxFragmentsV2 < unique.length || unique.zipIdx.any fun entry => entry.1.ordinal.toNat ≠ entry.2)
    (gatewayInvalid "raw target fragment ordinals are not contiguous")
  match buildResult p request session evaluation.decision evaluation.postVerifySamplerState
      (unique.map (·.descriptor p)) nowUnixMs targetSigner with
  | .error error => .error (.verifier error)
  | .ok result => .ok (result, unique.map fun fragment => (fragment.ordinal, fragment.payload))

/-- By ordinal, each once. -/
def Ordered (unique : List RawTargetFragmentV1) : Prop := unique.Pairwise fun left right => left.ordinal < right.ordinal

variable {unique fragments others : List RawTargetFragmentV1} {fragment : RawTargetFragmentV1}

theorem mem_insertOrdered {other : RawTargetFragmentV1} : other ∈ insertOrdered fragment unique ↔ other = fragment ∨
    other ∈ unique := by
  induction unique with
  | nil => rw [insertOrdered, List.mem_singleton, or_iff_left List.not_mem_nil]
  | cons first rest ih =>
    rw [insertOrdered]
    split_ifs
    · rw [List.mem_cons]
    · rw [List.mem_cons, ih, List.mem_cons, or_left_comm]

theorem Ordered.insert (ordered : Ordered unique) (fresh : ∀ other ∈ unique, other.ordinal ≠ fragment.ordinal) :
    Ordered (insertOrdered fragment unique) := by
  induction unique with
  | nil => exact List.pairwise_singleton _ _
  | cons first rest ih =>
    obtain ⟨least, ordered⟩ := List.pairwise_cons.mp ordered
    rw [insertOrdered]
    split_ifs with before
    · refine List.pairwise_cons.mpr ⟨fun other member => ?_, List.pairwise_cons.mpr ⟨least, ordered⟩⟩
      rcases List.mem_cons.mp member with rfl | member
      · exact before
      · exact UInt32.lt_trans before (least other member)
    · refine List.pairwise_cons.mpr ⟨fun other member => ?_, ih ordered fun other member =>
        fresh other (List.mem_cons_of_mem _ member)⟩
      rcases mem_insertOrdered.mp member with rfl | member
      · exact UInt32.lt_of_le_of_ne (UInt32.not_lt.mp before) (fresh first List.mem_cons_self)
      · exact least other member

/-- One fragment of an ordinal. -/
theorem Ordered.eq_of_ordinal (ordered : Ordered unique) {left right : RawTargetFragmentV1} (here : left ∈ unique)
    (there : right ∈ unique) (equal : left.ordinal = right.ordinal) : left = right := by
  induction unique with
  | nil => cases here
  | cons first rest ih =>
    obtain ⟨least, ordered⟩ := List.pairwise_cons.mp ordered
    rcases List.mem_cons.mp here with rfl | later
    · rcases List.mem_cons.mp there with rfl | later
      · rfl
      · exact absurd equal (UInt32.ne_of_lt (least right later))
    · rcases List.mem_cons.mp there with rfl | later'
      · exact absurd equal.symm (UInt32.ne_of_lt (least left later))
      · exact ih ordered later later'

/-- Ordered lists of the same fragments are the same. -/
theorem Ordered.ext {left right : List RawTargetFragmentV1} (ordered : Ordered left) (ordered' : Ordered right)
    (same : ∀ fragment, fragment ∈ left ↔ fragment ∈ right) : left = right := by
  have nodup {fragments : List RawTargetFragmentV1} (ordered : Ordered fragments) : fragments.Nodup :=
    ordered.imp fun before is => UInt32.ne_of_lt before (congrArg RawTargetFragmentV1.ordinal is)
  refine List.Perm.eq_of_pairwise (fun first second _ _ before after => ?_) ordered ordered'
    ((List.perm_ext_iff_of_nodup (nodup ordered) (nodup ordered')).mpr same)
  exact absurd (UInt32.lt_trans before after) (UInt32.lt_irrefl _)

/-- No two of the fragments have the same ordinal. -/
def Distinct (among : RawTargetFragmentV1 → Prop) : Prop :=
  ∀ left right, among left → among right → left.ordinal = right.ordinal → left = right

/-- What is collected: every fragment that was there or came, in order, if each fits the wire and those of one ordinal
are the same. -/
theorem collectUnique_eq_ok_iff {collected : List RawTargetFragmentV1} (ordered : Ordered unique) :
    collectUnique unique fragments = .ok collected ↔
      (∀ fragment ∈ fragments, fragment.payload.length ≤ defaultVerifierGatewayPayloadBytesV1) ∧
      Distinct (fun fragment => fragment ∈ unique ∨ fragment ∈ fragments) ∧ Ordered collected ∧
      ∀ fragment, fragment ∈ collected ↔ fragment ∈ unique ∨ fragment ∈ fragments := by
  induction fragments generalizing unique with
  | nil =>
    rw [collectUnique, Except.ok.injEq]
    simp only [List.not_mem_nil, or_false, false_implies, implies_true, true_and]
    constructor
    · rintro rfl
      exact ⟨fun _ _ here there => ordered.eq_of_ordinal here there, ordered, fun _ => Iff.rfl⟩
    · rintro ⟨-, ordered', members⟩
      exact ordered.ext ordered' fun fragment => (members fragment).symm
  | cons fragment rest ih =>
    rw [collectUnique, List.forall_mem_cons]
    split_ifs with large
    · exact iff_of_false (by rintro ⟨⟩) fun all => absurd all.1.1 (not_le.mpr large)
    rw [and_iff_right (not_lt.mp large)]
    cases found : unique.find? fun existing => existing.ordinal = fragment.ordinal with
    | some existing =>
      have present := List.mem_of_find?_eq_some found
      have ordinal : existing.ordinal = fragment.ordinal := by simpa using List.find?_some found
      dsimp only
      split_ifs with differs
      · refine iff_of_false (by rintro ⟨⟩) fun all => differs ?_
        exact all.2.1 _ _ (.inl present) (.inr List.mem_cons_self) ordinal
      · obtain rfl : existing = fragment := not_not.mp differs
        have same : ∀ other, (other ∈ unique ∨ other ∈ existing :: rest) ↔ (other ∈ unique ∨ other ∈ rest) := by
          intro other
          rw [List.mem_cons, ← or_assoc, or_iff_left_of_imp (a := other ∈ unique)]
          rintro rfl
          exact present
        simp only [same]
        exact ih ordered
    | none =>
      have fresh : ∀ other ∈ unique, other.ordinal ≠ fragment.ordinal := fun other member equal =>
        List.find?_eq_none.mp found other member (decide_eq_true equal)
      have same : ∀ other, (other ∈ unique ∨ other ∈ fragment :: rest) ↔
          (other ∈ insertOrdered fragment unique ∨ other ∈ rest) := by
        intro other
        rw [mem_insertOrdered, List.mem_cons, or_assoc, or_left_comm]
      simp only [same]
      exact ih (ordered.insert fresh)

/-- The fragments that were named, each in the place of its ordinal. -/
structure InPlaces (named unique : List RawTargetFragmentV1) : Prop where
  places : ∀ (index : ℕ) (fragment : RawTargetFragmentV1), unique[index]? = some fragment → fragment.ordinal.toNat = index
  members : ∀ fragment, fragment ∈ unique ↔ fragment ∈ named

theorem InPlaces.ordered (inPlaces : InPlaces fragments unique) : Ordered unique := by
  rw [Ordered, List.pairwise_iff_getElem]
  intro left right insideLeft insideRight before
  rw [UInt32.lt_iff_toNat_lt, inPlaces.places left _ (List.getElem?_eq_getElem insideLeft),
    inPlaces.places right _ (List.getElem?_eq_getElem insideRight)]
  exact before

/-- Fragments that fit the wire and fill the places from zero are collected in them, and no others are. -/
theorem collectUnique_iff : (collectUnique [] fragments = .ok unique ∧
      unique.zipIdx.any (fun entry => entry.1.ordinal.toNat ≠ entry.2) = false) ↔
    (∀ fragment ∈ fragments, fragment.payload.length ≤ defaultVerifierGatewayPayloadBytesV1) ∧
      InPlaces fragments unique := by
  rw [collectUnique_eq_ok_iff List.Pairwise.nil]
  simp only [List.not_mem_nil, false_or]
  constructor
  · rintro ⟨⟨fits, -, -, members⟩, contiguous⟩
    refine ⟨fits, fun index fragment here => ?_, members⟩
    have placed := List.any_eq_false.mp contiguous (fragment, index) (List.mk_mem_zipIdx_iff_getElem?.mpr here)
    exact not_not.mp (of_decide_eq_false (Bool.not_eq_true _ ▸ placed))
  · rintro ⟨fits, inPlaces⟩
    refine ⟨⟨fits, fun left right here there => ?_, inPlaces.ordered, inPlaces.members⟩,
      List.any_eq_false.mpr fun entry member => ?_⟩
    · exact inPlaces.ordered.eq_of_ordinal ((inPlaces.members left).mpr here) ((inPlaces.members right).mpr there)
    · rw [Bool.not_eq_true, decide_eq_false_iff_not, not_not]
      exact inPlaces.places entry.2 entry.1 (List.mk_mem_zipIdx_iff_getElem?.mp member)

/-- What is put together of an evaluation: the result over the descriptors of its fragments in their places, beside
the bytes they commit to. -/
def Materializes (p : Primitives) (session : SessionCoreV2) (targetSigner : TargetSigningKeyV2)
    (request : AuthenticatedRoundV2)
    (evaluation : RawTargetEvaluationV1) (nowUnixMs : UInt64)
    (output : AuthenticatedResultV2 × List (UInt32 × Bytes)) : Prop :=
  evaluation.fragments.length ≤ maxRawFragmentOccurrencesV1 ∧
  (∀ fragment ∈ evaluation.fragments, fragment.payload.length ≤ defaultVerifierGatewayPayloadBytesV1) ∧
  ∃ unique, InPlaces evaluation.fragments unique ∧ unique.length ≤ maxFragmentsV2 ∧
    buildResult p request session evaluation.decision evaluation.postVerifySamplerState (unique.map (·.descriptor p))
      nowUnixMs targetSigner = .ok output.1 ∧
    output.2 = unique.map fun fragment => (fragment.ordinal, fragment.payload)

variable {p : Primitives} {session : SessionCoreV2} {targetSigner : TargetSigningKeyV2} {request : AuthenticatedRoundV2}
  {evaluation : RawTargetEvaluationV1} {nowUnixMs : UInt64} {output : AuthenticatedResultV2 × List (UInt32 × Bytes)}

theorem materialize_iff : materializeTargetResult p session targetSigner request evaluation nowUnixMs = .ok output ↔
    Materializes p session targetSigner request evaluation nowUnixMs output := by
  rw [materializeTargetResult, check_eq_ok_iff, bind_eq_ok_iff, reject_eq_ok_iff, decide_eq_false_iff_not,
    not_lt, Materializes]
  refine and_congr_right fun _ => ?_
  have built (unique : List RawTargetFragmentV1) : (match buildResult p request session evaluation.decision
        evaluation.postVerifySamplerState (unique.map (·.descriptor p)) nowUnixMs targetSigner with
      | .error error => .error (.verifier error)
      | .ok result => .ok (result, unique.map fun fragment => (fragment.ordinal, fragment.payload)) :
        Except VerifierGatewayErrorV1 (AuthenticatedResultV2 × List (UInt32 × Bytes))) = .ok output ↔
      buildResult p request session evaluation.decision evaluation.postVerifySamplerState (unique.map (·.descriptor p))
        nowUnixMs targetSigner = .ok output.1 ∧ output.2 = unique.map fun fragment =>
          (fragment.ordinal, fragment.payload) := by
    split
    · next failed => rw [failed]; exact iff_of_false (by rintro ⟨⟩) fun both => by cases both.1
    · next done => rw [done, Except.ok.injEq, Except.ok.injEq, Prod.ext_iff, eq_comm (a := output.2)]
  constructor
  · rintro ⟨unique, collected, done⟩
    rw [check_eq_ok_iff, reject_eq_ok_iff, Bool.or_eq_false_iff, decide_eq_false_iff_not, not_lt, built] at done
    obtain ⟨⟨few, contiguous⟩, done⟩ := done
    obtain ⟨fits, inPlaces⟩ := collectUnique_iff.mp ⟨collected, contiguous⟩
    exact ⟨fits, unique, inPlaces, few, done⟩
  · rintro ⟨fits, unique, inPlaces, few, done⟩
    obtain ⟨collected, contiguous⟩ := collectUnique_iff.mpr ⟨fits, inPlaces⟩
    refine ⟨unique, collected, ?_⟩
    rw [check_eq_ok_iff, reject_eq_ok_iff, Bool.or_eq_false_iff, decide_eq_false_iff_not, not_lt, built]
    exact ⟨⟨few, contiguous⟩, done⟩

/-- What is put together is the same however often and in which order the target names its fragments. -/
theorem Materializes.of_same {others : List RawTargetFragmentV1}
    (done : Materializes p session targetSigner request evaluation nowUnixMs output)
    (same : ∀ fragment, fragment ∈ evaluation.fragments ↔ fragment ∈ others)
    (bounded : maxRawFragmentOccurrencesV1 < evaluation.fragments.length ↔ maxRawFragmentOccurrencesV1 < others.length) :
    Materializes p session targetSigner request { evaluation with fragments := others } nowUnixMs output := by
  obtain ⟨few, fits, unique, inPlaces, done⟩ := done
  exact ⟨not_lt.mp (bounded.not.mp (not_lt.mpr few)), fun fragment member => fits fragment ((same fragment).mpr member),
    unique, ⟨inPlaces.places, fun fragment => (inPlaces.members fragment).trans (same fragment)⟩, done⟩

/-- A built result has the fragments it was built over, and answers its round. -/
theorem buildResult_ok {decision : ResultDecisionV2} {sampler : SamplerStateV2} {fragments : List FragmentDescriptorV2}
    {result : AuthenticatedResultV2}
    (built : buildResult p request session decision sampler fragments nowUnixMs targetSigner = .ok result) :
    result.core.fragments = fragments ∧ result.verifyAgainst p request session = .ok () := by
  rw [buildResult, check_eq_ok_iff] at built
  replace built := built.2
  dsimp only at built
  split at built
  · cases built
  · simp only [bind_eq_ok_iff] at built
    obtain ⟨_, -, _, -, _, -, _, -, _, verified, is⟩ := built
    cases is
    exact ⟨rfl, verified⟩

/-- The bytes put together complete the result beside them. -/
theorem Materializes.complete (done : Materializes p session targetSigner request evaluation nowUnixMs output) :
    Complete p output.1.core.fragments output.2 := by
  obtain ⟨-, fits, unique, inPlaces, -, built, payloads⟩ := done
  rw [(buildResult_ok built).1, payloads]
  intro index descriptor found
  rw [List.getElem?_map, Option.map_eq_some_iff] at found
  obtain ⟨fragment, here, rfl⟩ := found
  have member := List.mem_of_getElem? here
  refine ⟨_, List.mem_map_of_mem member, inPlaces.places index fragment here, ?_, rfl⟩
  have short := fits fragment ((inPlaces.members fragment).mp member)
  exact (UInt64.toNat_ofNat_of_lt' (short.trans_lt (by decide))).symm

end Target

section Source

variable {p : Primitives}

structure VerifierSourceAssemblerV1 (p : Primitives) where
  requestId : String
  resultSha256 : String
  request : AuthenticatedRoundV2
  result : AuthenticatedResultV2
  assembler : FragmentAssemblerV2 p

namespace VerifierSourceAssemblerV1

/-- An assembler for a result that the source has verified. -/
def new (session : SessionCoreV2) (request : AuthenticatedRoundV2) (result : AuthenticatedResultV2) :
    Except VerifierGatewayErrorV1 (VerifierSourceAssemblerV1 p) :=
  match FragmentAssemblerV2.new result request session with
  | .error error => .error (.verifier error)
  | .ok assembler => .ok {
      requestId := request.core.requestId
      resultSha256 := result.recordDigest p
      request := request
      result := result
      assembler := assembler }

/-- What a frame brings, if it is a fragment of this result. -/
def arrival (source : VerifierSourceAssemblerV1 p) (frame : VerifierGatewayFrameV1) :
    Except VerifierGatewayErrorV1 (UInt32 × Bytes) :=
  match frame.message with
  | .gateway (.fragment requestId resultSha256 descriptor) =>
    if requestId ≠ source.requestId ∨ resultSha256 ≠ source.resultSha256 ∨
        source.result.core.fragments[descriptor.ordinal.toNat]? ≠ some descriptor then
      .error (gatewayInvalid "source fragment addresses another result")
    else .ok (descriptor.ordinal, frame.payload)
  | _ => .error (gatewayInvalid "source assembler expected a fragment frame")

def insertFrame (source : VerifierSourceAssemblerV1 p) (frame : VerifierGatewayFrameV1) :
    Except VerifierGatewayErrorV1 Bool × VerifierSourceAssemblerV1 p :=
  match source.arrival frame with
  | .error error => (.error error, source)
  | .ok (ordinal, payload) =>
    let (answer, assembler) := source.assembler.insert ordinal payload
    (answer.mapError .verifier, { source with assembler := assembler })

def missingOrdinals (source : VerifierSourceAssemblerV1 p) : List UInt32 := source.assembler.missingOrdinals

def finish (source : VerifierSourceAssemblerV1 p) : Except VerifierGatewayErrorV1 (VerifiedClosureV2 p) :=
  match source.assembler.finish with
  | .error error => .error (.verifier error)
  | .ok closure => .ok closure

/-- The source after a frame, which may be refused. -/
def afterFrame (source : VerifierSourceAssemblerV1 p) (frame : VerifierGatewayFrameV1) : VerifierSourceAssemblerV1 p :=
  (source.insertFrame frame).2

def afterFrames (source : VerifierSourceAssemblerV1 p) (frames : List VerifierGatewayFrameV1) :
    VerifierSourceAssemblerV1 p :=
  frames.foldl afterFrame source

/-- What the frames bring to this result. -/
def arrivals (source : VerifierSourceAssemblerV1 p) (frames : List VerifierGatewayFrameV1) : List (UInt32 × Bytes) :=
  frames.filterMap fun frame => (source.arrival frame).toOption

theorem afterFrame_eq (source : VerifierSourceAssemblerV1 p) (frame : VerifierGatewayFrameV1) :
    source.afterFrame frame = { source with assembler := afterAll source.assembler (source.arrivals [frame]) } := by
  rw [afterFrame, insertFrame, arrivals, List.filterMap_cons, List.filterMap_nil]
  cases addressed : source.arrival frame with
  | error error => rfl
  | ok arrival => rfl

/-- A frame that is refused, or that repeats what is there, leaves the source as it was. -/
theorem insertFrame_stale (source : VerifierSourceAssemblerV1 p) (frame : VerifierGatewayFrameV1)
    (stale : (source.insertFrame frame).1 ≠ .ok true) : (source.insertFrame frame).2 = source := by
  rw [insertFrame] at stale ⊢
  cases addressed : source.arrival frame with
  | error error => rfl
  | ok arrival =>
    rw [addressed] at stale
    have same := insert_stale source.assembler arrival.1 arrival.2 fun fresh => stale (congrArg (Except.mapError _) fresh)
    exact congrArg (fun assembler => { source with assembler := assembler }) same

/-- A source that has taken frames has inserted what they brought. -/
theorem afterFrames_eq (source : VerifierSourceAssemblerV1 p) (frames : List VerifierGatewayFrameV1) :
    source.afterFrames frames = { source with assembler := afterAll source.assembler (source.arrivals frames) } := by
  induction frames generalizing source with
  | nil => rfl
  | cons frame frames ih =>
    rw [afterFrames, List.foldl_cons, afterFrame_eq]
    refine (ih _).trans ?_
    have split : source.arrivals (frame :: frames) = source.arrivals [frame] ++ source.arrivals frames :=
      @List.filterMap_append _ _ [frame] frames _
    rw [split, afterAll, afterAll, afterAll, List.foldl_append]
    rfl

variable {source : VerifierSourceAssemblerV1 p}

theorem arrival_eq_ok_iff {frame : VerifierGatewayFrameV1} {arrival : UInt32 × Bytes} :
    source.arrival frame = .ok arrival ↔ ∃ descriptor,
      frame.message = .gateway (.fragment source.requestId source.resultSha256 descriptor) ∧
      source.result.core.fragments[descriptor.ordinal.toNat]? = some descriptor ∧
        (descriptor.ordinal, frame.payload) = arrival := by
  rw [VerifierSourceAssemblerV1.arrival]
  split
  · next requestId resultSha256 descriptor message =>
    rw [message]
    split
    · next differs =>
      refine iff_of_false (by rintro ⟨⟩) ?_
      rintro ⟨_, ⟨⟩, listed, -⟩
      exact differs.elim (absurd rfl) fun differs => differs.elim (absurd rfl) (absurd listed)
    · next same =>
      simp only [not_or, not_not] at same
      obtain ⟨rfl, rfl, listed⟩ := same
      rw [Except.ok.injEq]
      refine ⟨fun is => ⟨descriptor, rfl, listed, is⟩, ?_⟩
      rintro ⟨_, ⟨⟩, -, is⟩
      exact is
  · next other =>
    refine iff_of_false (by rintro ⟨⟩) ?_
    rintro ⟨descriptor, message, -⟩
    exact other _ _ _ message

theorem finish_eq_ok_iff {closure : VerifiedClosureV2 p} :
    source.finish = .ok closure ↔ source.assembler.finish = .ok closure := by
  rw [finish]
  split
  · next error failed =>
    rw [failed]
    exact iff_of_false (by rintro ⟨⟩) (by rintro ⟨⟩)
  · next closure' done => rw [done, Except.ok.injEq, Except.ok.injEq]

theorem new_eq_ok {session : SessionCoreV2} {request : AuthenticatedRoundV2} {result : AuthenticatedResultV2}
    (made : new session request result = .ok source) :
    source = ⟨request.core.requestId, result.recordDigest p, request, result,
      waiting p (result.recordDigest p) result.core.fragments⟩ := by
  rw [VerifierSourceAssemblerV1.new] at made
  cases begun : FragmentAssemblerV2.new (p := p) result request session with
  | error error =>
    rw [begun] at made
    cases made
  | ok assembler =>
    rw [begun] at made
    rw [← Except.ok.inj made, Gateway.new_eq_ok begun]

end VerifierSourceAssemblerV1

/-- The frame names the fragment at an index of the result and carries its committed bytes. -/
def Brings (p : Primitives) (request : AuthenticatedRoundV2) (result : AuthenticatedResultV2) (index : ℕ)
    (descriptor : FragmentDescriptorV2) (frame : VerifierGatewayFrameV1) : Prop :=
  frame.message = .gateway (.fragment request.core.requestId (result.recordDigest p) descriptor) ∧
    descriptor.ordinal.toNat = index ∧ descriptor.Describes p frame.payload

/-- What a source that has verified a result makes of some frames. -/
structure Received (p : Primitives) (request : AuthenticatedRoundV2) (result : AuthenticatedResultV2)
    (source : VerifierSourceAssemblerV1 p) (frames : List VerifierGatewayFrameV1) : Prop where
  complete : (∃ closure, (source.afterFrames frames).finish = .ok closure) ↔
    ∀ (index : ℕ) descriptor, result.core.fragments[index]? = some descriptor → ∃ frame ∈ frames,
      Brings p request result index descriptor frame
  listed : ∀ closure, (source.afterFrames frames).finish = .ok closure →
    closure.resultSha256 = result.recordDigest p ∧ closure.fragments.map (·.descriptor) = result.core.fragments ∧
    ∀ (index : ℕ) (fragment : VerifiedFragmentV2), closure.fragments[index]? = some fragment →
      ∃ frame ∈ frames, Brings p request result index fragment.descriptor frame ∧ frame.payload = fragment.payload
  ordered : ∀ others, (∀ frame, frame ∈ frames ↔ frame ∈ others) → CollisionFree p (frames.map (·.payload)) →
    (source.afterFrames frames).finish = (source.afterFrames others).finish

theorem received {session : SessionCoreV2} {request : AuthenticatedRoundV2} {result : AuthenticatedResultV2}
    {source : VerifierSourceAssemblerV1 p} (made : VerifierSourceAssemblerV1.new session request result = .ok source)
    (frames : List VerifierGatewayFrameV1) : Received p request result source frames := by
  obtain rfl := VerifierSourceAssemblerV1.new_eq_ok made
  -- what arrives is what the frames of this result carry
  have arrives : ∀ {frames : List VerifierGatewayFrameV1} {arrival : UInt32 × Bytes},
      arrival ∈ VerifierSourceAssemblerV1.arrivals ⟨request.core.requestId, result.recordDigest p, request, result,
        waiting p (result.recordDigest p) result.core.fragments⟩ frames ↔
      ∃ frame ∈ frames, ∃ descriptor,
        frame.message = .gateway (.fragment request.core.requestId (result.recordDigest p) descriptor) ∧
        result.core.fragments[descriptor.ordinal.toNat]? = some descriptor ∧
          (descriptor.ordinal, frame.payload) = arrival := by
    intro frames arrival
    rw [VerifierSourceAssemblerV1.arrivals, List.mem_filterMap]
    refine exists_congr fun frame => and_congr_right fun _ => ?_
    rw [toOption_eq_some_iff, VerifierSourceAssemblerV1.arrival_eq_ok_iff]
  constructor
  case complete =>
    simp only [VerifierSourceAssemblerV1.finish_eq_ok_iff, VerifierSourceAssemblerV1.afterFrames_eq,
      finish_waiting, Complete]
    refine forall_congr' fun index => forall_congr' fun descriptor => imp_congr_right fun found => ?_
    constructor
    · rintro ⟨arrival, arrived, rfl, described⟩
      obtain ⟨frame, member, other, message, listed, rfl⟩ := arrives.mp arrived
      cases found.symm.trans listed
      exact ⟨frame, member, message, rfl, described⟩
    · rintro ⟨frame, member, message, rfl, described⟩
      exact ⟨_, arrives.mpr ⟨frame, member, descriptor, message, found, rfl⟩, rfl, described⟩
  case listed =>
    intro closure finished
    rw [VerifierSourceAssemblerV1.finish_eq_ok_iff, VerifierSourceAssemblerV1.afterFrames_eq] at finished
    obtain ⟨digest, descriptors, payloads⟩ := finish_listed finished
    refine ⟨digest, descriptors, fun index fragment here => ?_⟩
    obtain ⟨arrival, arrived, rfl, payload⟩ := payloads index fragment here
    obtain ⟨frame, member, descriptor, message, listed, rfl⟩ := arrives.mp arrived
    rw [← descriptors, List.getElem?_map, here] at listed
    cases listed
    have described := closure.described fragment (List.mem_of_getElem? here)
    rw [← payload] at described
    exact ⟨frame, member, ⟨message, rfl, described⟩, payload⟩
  case ordered =>
    intro others same collisionFree
    rw [VerifierSourceAssemblerV1.finish, VerifierSourceAssemblerV1.finish, VerifierSourceAssemblerV1.afterFrames_eq,
      VerifierSourceAssemblerV1.afterFrames_eq]
    dsimp only
    rw [afterAll_congr]
    · intro arrival
      rw [arrives, arrives]
      exact exists_congr fun frame => and_congr_left' (same frame)
    · intro left here right there
      obtain ⟨_, arrived, rfl⟩ := List.mem_map.mp here
      obtain ⟨_, arrived', rfl⟩ := List.mem_map.mp there
      obtain ⟨frame, member, _, -, -, rfl⟩ := arrives.mp arrived
      obtain ⟨frame', member', _, -, -, rfl⟩ := arrives.mp arrived'
      exact collisionFree _ (List.mem_map_of_mem member) _ (List.mem_map_of_mem member')

end Source

/-- Assembly does not depend on the order or the repetition of what arrives. At the assembler, at the gateway and at
the source, what is refused changes nothing, what is put together is there exactly if the committed bytes came, and it
is those bytes in the order of the manifest. -/
structure AssemblyInsensitive (p : Primitives) : Prop where
  fresh : ∀ (assembler : FragmentAssemblerV2 p) (ordinal : UInt32) (payload : Bytes),
    (assembler.insert ordinal payload).1 = .ok true ↔
      ∃ descriptor, assembler.slots[ordinal.toNat]? = some (descriptor, none) ∧ descriptor.Describes p payload
  stale : ∀ (assembler : FragmentAssemblerV2 p) (ordinal : UInt32) (payload : Bytes),
    (assembler.insert ordinal payload).1 ≠ .ok true → (assembler.insert ordinal payload).2 = assembler
  complete : ∀ (resultSha256 : String) (descriptors : List FragmentDescriptorV2) (arrivals : List (UInt32 × Bytes)),
    (∃ closure, (afterAll (waiting p resultSha256 descriptors) arrivals).finish = .ok closure) ↔
      Complete p descriptors arrivals
  listed : ∀ (resultSha256 : String) (descriptors : List FragmentDescriptorV2) (arrivals : List (UInt32 × Bytes))
    (closure : VerifiedClosureV2 p), (afterAll (waiting p resultSha256 descriptors) arrivals).finish = .ok closure →
    closure.resultSha256 = resultSha256 ∧ closure.fragments.map (·.descriptor) = descriptors ∧
    ∀ (index : ℕ) (fragment : VerifiedFragmentV2), closure.fragments[index]? = some fragment →
      ∃ arrival ∈ arrivals, arrival.1.toNat = index ∧ arrival.2 = fragment.payload
  ordered : ∀ (resultSha256 : String) (descriptors : List FragmentDescriptorV2) (arrivals others : List (UInt32 × Bytes)),
    (∀ arrival, arrival ∈ arrivals ↔ arrival ∈ others) → CollisionFree p (arrivals.map Prod.snd) →
    (afterAll (waiting p resultSha256 descriptors) arrivals).finish =
      (afterAll (waiting p resultSha256 descriptors) others).finish
  materialized : ∀ (session : SessionCoreV2) (targetSigner : TargetSigningKeyV2) (request : AuthenticatedRoundV2)
    (evaluation : RawTargetEvaluationV1) (nowUnixMs : UInt64) (output : AuthenticatedResultV2 × List (UInt32 × Bytes)),
    (materializeTargetResult p session targetSigner request evaluation nowUnixMs = .ok output ↔
      Materializes p session targetSigner request evaluation nowUnixMs output) ∧
    (Materializes p session targetSigner request evaluation nowUnixMs output → Complete p output.1.core.fragments output.2)
  renamed : ∀ (session : SessionCoreV2) (targetSigner : TargetSigningKeyV2) (request : AuthenticatedRoundV2)
    (evaluation : RawTargetEvaluationV1) (nowUnixMs : UInt64) (others : List RawTargetFragmentV1),
    (∀ fragment, fragment ∈ evaluation.fragments ↔ fragment ∈ others) →
    (maxRawFragmentOccurrencesV1 < evaluation.fragments.length ↔ maxRawFragmentOccurrencesV1 < others.length) →
    (materializeTargetResult p session targetSigner request evaluation nowUnixMs).toOption =
      (materializeTargetResult p session targetSigner request { evaluation with fragments := others } nowUnixMs).toOption
  refused : ∀ (source : VerifierSourceAssemblerV1 p) (frame : VerifierGatewayFrameV1),
    (source.insertFrame frame).1 ≠ .ok true → (source.insertFrame frame).2 = source
  received : ∀ (session : SessionCoreV2) (request : AuthenticatedRoundV2) (result : AuthenticatedResultV2)
    (source : VerifierSourceAssemblerV1 p) (frames : List VerifierGatewayFrameV1),
    VerifierSourceAssemblerV1.new session request result = .ok source → Received p request result source frames

theorem assembly_insensitive (p : Primitives) : AssemblyInsensitive p where
  fresh := insert_fresh_iff
  stale := insert_stale
  complete := finish_waiting
  listed _ _ _ _ := finish_listed
  ordered resultSha256 descriptors arrivals others same collisionFree := by
    rw [afterAll_congr resultSha256 descriptors same collisionFree]
  materialized _ _ _ _ _ _ := ⟨materialize_iff, Materializes.complete⟩
  renamed session targetSigner request evaluation nowUnixMs others same bounded := by
    refine Option.ext fun output => ?_
    rw [toOption_eq_some_iff, toOption_eq_some_iff, materialize_iff, materialize_iff]
    exact ⟨fun done => done.of_same same bounded,
      fun done => done.of_same (fun fragment => (same fragment).symm) bounded.symm⟩
  refused := VerifierSourceAssemblerV1.insertFrame_stale
  received _ _ _ _ frames made := received made frames

section Samples

open Sample

/-- A session whose results have a fragment for every fresh row. -/
def rowsCore : SessionCoreV2 :=
  let rows := { unsigned with fragmentRequirements := [⟨"hidden", .targetHidden, .freshTargetRows, "rows", 2, true⟩] }
  { rows with genesisHeadSha256 := rows.genesisDigest primitives }

def rowsRound : RoundCoreV2 :=
  { request.core with sessionGenesisSha256 := rowsCore.genesisHeadSha256, baseHeadSha256 := rowsCore.genesisHeadSha256 }

def rowsRequest : AuthenticatedRoundV2 :=
  ⟨rowsRound, primitives.hmacSha256Hex key.bytes (MacKey.domainStream verifierRoundMacDomainV3 (canonical rowsRound))⟩

def rawRow (ordinal : UInt32) (payload : Bytes) : RawTargetFragmentV1 where
  ordinal
  componentId := "hidden"
  kind := .targetHidden
  logicalStart := ordinal.toUInt64 + 1
  logicalCount := 1
  payloadAbi := "rows"
  bytesPerLogicalRow := 2
  payload

/-- The second row before the first one, and once more. -/
def rowsEvaluation : RawTargetEvaluationV1 :=
  ⟨.opened 0 8, rowsRound.baseSamplerState, [rawRow 1 [7, 8], rawRow 0 [5, 6], rawRow 1 [7, 8]]⟩

/-- A frame for a row of a result, with some bytes. -/
def rowFrame (result : AuthenticatedResultV2) (row : RawTargetFragmentV1) (payload : Bytes) : VerifierGatewayFrameV1 :=
  ⟨.gateway (.fragment rowsRound.requestId (result.recordDigest primitives) (row.descriptor primitives)), payload⟩

/-- The second row twice, and the first one with other bytes before its own. -/
def rowFrames (result : AuthenticatedResultV2) : List VerifierGatewayFrameV1 :=
  [rowFrame result (rawRow 1 [7, 8]) [7, 8], rowFrame result (rawRow 0 [5, 6]) [9, 9],
    rowFrame result (rawRow 1 [7, 8]) [7, 8], rowFrame result (rawRow 0 [5, 6]) [5, 6]]

set_option maxRecDepth 100000 in
private theorem rows_evaluated : (buildResult primitives rowsRequest rowsCore (.opened 0 8) rowsRound.baseSamplerState
      ([rawRow 0 [5, 6], rawRow 1 [7, 8]].map (·.descriptor primitives)) 10 signer).toOption.isSome = true ∧
    primitives.sha256Hex [9, 9] ≠ primitives.sha256Hex [5, 6] := by
  decide +kernel

/-- What the frames bring is one row or the other. -/
theorem rowFrames_bring {result : AuthenticatedResultV2} {index : ℕ} {descriptor : FragmentDescriptorV2}
    {frame : VerifierGatewayFrameV1}
    (member : frame ∈ rowFrames result) (brings : Brings primitives rowsRequest result index descriptor frame) :
    (index = 0 ∧ frame.payload = [5, 6]) ∨ (index = 1 ∧ frame.payload = [7, 8]) := by
  obtain ⟨message, rfl, -, digest⟩ := brings
  simp only [rowFrames, List.mem_cons, List.not_mem_nil, or_false] at member
  rcases member with rfl | rfl | rfl | rfl
  · cases message
    exact .inr ⟨rfl, rfl⟩
  · cases message
    exact absurd digest rows_evaluated.2
  · cases message
    exact .inr ⟨rfl, rfl⟩
  · cases message
    exact .inl ⟨rfl, rfl⟩

/-- The target names a row twice and out of order, and the frames bring them so and with other bytes between; the rows
are put together in their order, on both sides. -/
theorem assembly_insensitive_rows : ∃ (result : AuthenticatedResultV2) (source : VerifierSourceAssemblerV1 primitives)
    (closure : VerifiedClosureV2 primitives),
    materializeTargetResult primitives rowsCore signer rowsRequest rowsEvaluation 10 = .ok (result,
      [(0, [5, 6]), (1, [7, 8])]) ∧
      VerifierSourceAssemblerV1.new rowsCore rowsRequest result = .ok source ∧
      (source.afterFrames (rowFrames result)).finish = .ok closure ∧
        closure.fragments.map (·.payload) = [[5, 6], [7, 8]] := by
  obtain ⟨result, found⟩ := Option.isSome_iff_exists.mp rows_evaluated.1
  have built := toOption_eq_some_iff.mp found
  have done := ((assembly_insensitive primitives).materialized rowsCore signer rowsRequest rowsEvaluation 10
    (result, [(0, [5, 6]), (1, [7, 8])])).1.mpr
    ⟨by decide, by decide, [rawRow 0 [5, 6], rawRow 1 [7, 8]], ⟨?_, ?_⟩, by decide, built, rfl⟩
  · obtain ⟨fragments, verified⟩ := buildResult_ok built
    obtain ⟨source, made⟩ : ∃ source : VerifierSourceAssemblerV1 primitives,
      VerifierSourceAssemblerV1.new rowsCore rowsRequest result = .ok source := by
      rw [VerifierSourceAssemblerV1.new, FragmentAssemblerV2.new, verified]
      exact ⟨_, rfl⟩
    have received := (assembly_insensitive primitives).received _ _ _ _ (rowFrames result) made
    obtain ⟨closure, finished⟩ := received.complete.mpr fun index descriptor found => by
      rw [fragments] at found
      rcases index with _ | _ | index
      · cases found
        exact ⟨rowFrame result (rawRow 0 [5, 6]) [5, 6], by simp [rowFrames], rfl, rfl, rfl, rfl⟩
      · cases found
        exact ⟨rowFrame result (rawRow 1 [7, 8]) [7, 8], by simp [rowFrames], rfl, rfl, rfl, rfl⟩
      · cases found
    refine ⟨result, source, closure, done, made, finished, ?_⟩
    obtain ⟨-, descriptors, payloads⟩ := received.listed closure finished
    have two : closure.fragments.length = 2 := by
      rw [← List.length_map (·.descriptor), descriptors, fragments]
      rfl
    obtain ⟨first, second, is⟩ := List.length_eq_two.mp two
    obtain ⟨frame, member, brings, payload⟩ := payloads 0 first (by rw [is]; rfl)
    obtain ⟨frame', member', brings', payload'⟩ := payloads 1 second (by rw [is]; rfl)
    rw [is, List.map_cons, List.map_singleton, ← payload, ← payload',
      ((rowFrames_bring member brings).resolve_right (by simp)).2,
        ((rowFrames_bring member' brings').resolve_left (by simp)).2]
  · intro index fragment here
    rcases index with _ | _ | index
    · cases here
      rfl
    · cases here
      rfl
    · cases here
  · intro fragment
    simp only [rowsEvaluation, List.mem_cons, List.not_mem_nil, or_false]
    constructor
    · rintro (is | is)
      · exact .inr (.inl is)
      · exact .inl is
    · rintro (is | is | is)
      · exact .inr is
      · exact .inl is
      · exact .inr is

end Samples

end Muser.Gateway
