import Muser.Gguf.Limits
import Mathlib.Data.Nat.Log

/-! # The ranges of the tensors

A file is parsed where its header is, its alignment is a power of two and every tensor lies inside of it. No
arithmetic overflows, and the sizes that are checked are those that readers of the tensors compute later.
-/

namespace Muser.Gguf

open Reader

/-- The bytes of a tensor, without any bound: whole blocks of one element at least. -/
def TensorInfo.exactSize (tensor : TensorInfo) : ℕ :=
  max (product tensor.shape) 1 ⌈/⌉ tensor.dtype.blockElements * tensor.dtype.blockSize

/-- The elements of a tensor can be counted in 64 bits: as the dimensions are multiplied, and rounded up to blocks. -/
def TensorInfo.Counted (tensor : TensorInfo) : Prop :=
  (∀ front, front <+: tensor.shape → product front ≤ u64Max) ∧
    max (product tensor.shape) 1 + (tensor.dtype.blockElements - 1) ≤ u64Max

variable {bytes : Bytes} {tensor : TensorInfo}

theorem minus_of_le {left right : ℕ} (fits : right ≤ left) : minus left right = .ok (left - right) := if_neg (by omega)

theorem plus_of_le {left right : ℕ} (fits : left + right ≤ u64Max) : plus left right = .ok (left + right) :=
    if_neg (by omega)

theorem mul_of_le {left right : ℕ} (fits : left * right ≤ u64Max) : mul left right = .ok (left * right) := if_neg (by omega)

theorem ceilDiv_eq (count per : ℕ) (positive : 0 < per) : count ⌈/⌉ per = (count + (per - 1)) / per := by
  rw [Nat.ceilDiv_eq_add_pred_div, Nat.add_sub_assoc positive]

/-! ## Sizes -/

theorem checkedProduct_eq_some_iff {shape : List UInt64} {total : ℕ} : checkedProduct 1 shape = some total ↔
    (∀ front, front <+: shape → product front ≤ u64Max) ∧ total = product shape := by
  have one : 1 ≤ u64Max := by decide
  have fits := @checkedProduct_isSome_iff 1 shape one
  simp only [Nat.one_mul] at fits
  constructor
  · intro is
    refine ⟨fits.mp (Option.isSome_of_eq_some is), ?_⟩
    rw [checkedProduct_eq is, Nat.one_mul]
  · rintro ⟨within, rfl⟩
    obtain ⟨total, is⟩ := Option.isSome_iff_exists.mp (fits.mpr within)
    rw [is, checkedProduct_eq is, Nat.one_mul]

/-- The size that is checked is the exact one, or an overflow of the tensor is reported. -/
theorem checkedTensorSize_eq (tensor : TensorInfo) :
    (tensor.Counted ∧ tensor.exactSize ≤ u64Max ∧ checkedTensorSize tensor = .ok tensor.exactSize) ∨
    (¬(tensor.Counted ∧ tensor.exactSize ≤ u64Max) ∧
      checkedTensorSize tensor = .error (.error (.tensorSizeOverflow tensor.name))) := by
  have positive := tensor.dtype.blockElements_pos
  have padding : minus tensor.dtype.blockElements 1 = .ok (tensor.dtype.blockElements - 1) := minus_of_le positive
  cases multiplied : checkedProduct 1 tensor.shape with
  | none =>
    refine .inr ⟨fun fits => ?_, by rw [checkedTensorSize, multiplied]; rfl⟩
    rw [checkedProduct_eq_some_iff.mpr ⟨fits.1.1, rfl⟩] at multiplied
    cases multiplied
  | some total =>
    obtain ⟨within, rfl⟩ := checkedProduct_eq_some_iff.mp multiplied
    have exact : tensor.exactSize =
      (max (product tensor.shape) 1 + (tensor.dtype.blockElements - 1)) / tensor.dtype.blockElements *
        tensor.dtype.blockSize := by rw [TensorInfo.exactSize, ceilDiv_eq _ _ positive]
    by_cases padded : max (product tensor.shape) 1 + (tensor.dtype.blockElements - 1) ≤ u64Max
    · by_cases small : tensor.exactSize ≤ u64Max
      · refine .inl ⟨⟨within, padded⟩, small, ?_⟩
        rw [exact] at small ⊢
        simp [checkedTensorSize, multiplied, padding, okOr, checkedAdd, checkedMul, padded, small, bind, Except.bind]
      · refine .inr ⟨fun fits => small fits.2, ?_⟩
        rw [exact] at small
        simp [checkedTensorSize, multiplied, padding, okOr, checkedAdd, checkedMul, padded, small, bind, Except.bind]
    · refine .inr ⟨fun fits => padded fits.1.2, ?_⟩
      simp [checkedTensorSize, multiplied, padding, okOr, checkedAdd, padded, bind, Except.bind]

/-- Where elements can be counted, the size that readers compute is the exact one unless it saturates. -/
theorem dataSize_eq (counted : tensor.Counted) : tensor.dataSize = min tensor.exactSize u64Max := by
  rw [TensorInfo.dataSize, TensorInfo.nElements, checkedProduct_eq_some_iff.mpr ⟨counted.1, rfl⟩, Option.getD_some,
    saturatingMul,
    TensorInfo.exactSize]

/-- Elements that cannot be counted take more bytes than there are in a small file. -/
theorem counted_of_small (small : tensor.dataSize < 2 ^ 61) : tensor.Counted := by
  by_contra uncounted
  have positive := tensor.dtype.blockElements_pos
  have many : u64Max ≤ tensor.nElements + (tensor.dtype.blockElements - 1) := by
    rw [TensorInfo.nElements]
    cases multiplied : checkedProduct 1 tensor.shape with
    | none => exact Nat.le_add_right_of_le (le_max_left _ _)
    | some total =>
      obtain ⟨within, rfl⟩ := checkedProduct_eq_some_iff.mp multiplied
      exact le_of_not_ge fun padded => uncounted ⟨within, padded⟩
  have blocks : u64Max / tensor.dtype.blockElements ≤ tensor.nElements ⌈/⌉ tensor.dtype.blockElements := by
    rw [ceilDiv_eq _ _ positive]
    exact Nat.div_le_div_right many
  have sized : 2 ^ 61 ≤ saturatingMul (u64Max / tensor.dtype.blockElements) tensor.dtype.blockSize := by
    cases tensor.dtype <;> decide
  exact absurd small (not_lt.mpr (sized.trans (min_le_min_right _ (Nat.mul_le_mul_right _ blocks))))

/-! ## Where tensors lie -/

/-- A tensor whose bytes lie inside of a file. -/
structure TensorInfo.Inside (tensor : TensorInfo) (dataOffset fileEnd : ℕ) : Prop where
  counted : tensor.Counted
  addressed : dataOffset + tensor.offset.toNat + tensor.exactSize ≤ u64Max
  within : dataOffset + tensor.offset.toNat + tensor.exactSize ≤ fileEnd

theorem checkTensor_eq (dataOffset fileEnd : ℕ) (tensor : TensorInfo) :
    (tensor.Inside dataOffset fileEnd ∧ checkTensor dataOffset fileEnd tensor = .ok ()) ∨
      (¬tensor.Inside dataOffset fileEnd ∧ ∃ error, checkTensor dataOffset fileEnd tensor = .error (.error error)) := by
  rw [checkTensor]
  obtain ⟨counted, small, sized⟩ | ⟨beyond, sized⟩ := checkedTensorSize_eq tensor
  · rw [sized]
    by_cases addressed : dataOffset + tensor.offset.toNat + tensor.exactSize ≤ u64Max
    · have begins : dataOffset + tensor.offset.toNat ≤ u64Max := by omega
      by_cases within : dataOffset + tensor.offset.toNat + tensor.exactSize ≤ fileEnd
      · refine .inl ⟨⟨counted, addressed, within⟩, ?_⟩
        simp [checkedAdd, begins, addressed, okOr, bind, Except.bind, not_lt.mpr within]
      · refine .inr ⟨fun inside => within inside.within, .tensorOutOfBounds tensor.name, ?_⟩
        simp [checkedAdd, begins, addressed, okOr, bind, Except.bind, not_le.mp within]
    · refine .inr ⟨fun inside => addressed inside.addressed, .tensorSizeOverflow tensor.name, ?_⟩
      have none_ : (checkedAdd dataOffset tensor.offset.toNat).bind (checkedAdd · tensor.exactSize) = none := by
        rw [Option.bind_eq_none_iff]
        intro start is
        obtain ⟨rfl, -⟩ := checkedAdd_eq_some_iff.mp is
        exact if_neg addressed
      simp [none_, okOr, bind, Except.bind]
  · rw [sized]
    refine .inr ⟨fun inside => beyond ⟨inside.counted, ?_⟩, .tensorSizeOverflow tensor.name, rfl⟩
    have := inside.addressed
    omega

theorem isPowerOfTwo_iff (number : ℕ) : isPowerOfTwo number = true ↔ number.isPowerOfTwo := by
  rw [isPowerOfTwo, beq_iff_eq]
  constructor
  · exact fun is => ⟨_, is⟩
  · rintro ⟨exponent, rfl⟩
    rw [Nat.log2_two_pow]

theorem alignment_le (metadata : Metadata) : alignment metadata ≤ 2 ^ 32 := by
  rw [alignment]
  split
  · next value _ => exact value.toNat_lt.le
  · decide

/-- The next multiple of the alignment, or a limit that is exceeded. -/
theorem alignedOffset_eq {position alignment : ℕ} (positive : 0 < alignment) (small : alignment ≤ u64Max) :
    alignedOffset position alignment = if position + (alignment - 1) ≤ u64Max then .ok (position ⌈/⌉ alignment * alignment)
      else .error (.error (.limitExceeded "aligned header offset" position (u64Max - alignment + 1))) := by
  have padding : minus alignment 1 = .ok (alignment - 1) := minus_of_le positive
  have room : minus u64Max alignment = .ok (u64Max - alignment) := minus_of_le small
  have limit : plus (u64Max - alignment) 1 = .ok (u64Max - alignment + 1) := plus_of_le (by omega)
  by_cases fits : position + (alignment - 1) ≤ u64Max
  · have product : mul ((position + (alignment - 1)) / alignment) alignment =
        .ok ((position + (alignment - 1)) / alignment * alignment) :=
      mul_of_le ((Nat.div_mul_le_self _ _).trans fits)
    rw [if_pos fits, ceilDiv_eq _ _ positive]
    simp [alignedOffset, padding, room, limit, checkedAdd, fits, okOr, product, bind, Except.bind]
  · simp [alignedOffset, padding, room, limit, checkedAdd, fits, okOr, bind, Except.bind]

/-- Where the data of a header begin that ends at a position. -/
def Header.dataOffset (header : Header) (position : ℕ) : ℕ :=
  position ⌈/⌉ alignment header.metadata * alignment header.metadata

def Header.file (header : Header) (position : ℕ) : GgufFile :=
  { version := header.version, metadata := header.metadata, tensors := header.tensors,
    dataOffset := header.dataOffset position }

/-- A header whose tensors lie inside of a file, behind it and aligned. -/
structure Header.Placed (header : Header) (position fileEnd : ℕ) : Prop where
  aligned : (alignment header.metadata).isPowerOfTwo
  room : position + (alignment header.metadata - 1) ≤ u64Max
  inside : ∀ tensor ∈ header.tensors, tensor.Inside (header.dataOffset position) fileEnd

theorem forM_checkTensor (dataOffset fileEnd : ℕ) (tensors : List TensorInfo) :
    ((∀ tensor ∈ tensors, tensor.Inside dataOffset fileEnd) ∧ tensors.forM (checkTensor dataOffset fileEnd) = .ok ()) ∨
      (¬(∀ tensor ∈ tensors, tensor.Inside dataOffset fileEnd) ∧
        ∃ error, tensors.forM (checkTensor dataOffset fileEnd) = .error (.error error)) := by
  induction tensors with
  | nil => exact .inl ⟨nofun, rfl⟩
  | cons tensor tensors ih =>
    have steps : (tensor :: tensors).forM (checkTensor dataOffset fileEnd) =
        (checkTensor dataOffset fileEnd tensor >>= fun _ => tensors.forM (checkTensor dataOffset fileEnd)) := rfl
    rw [List.forall_mem_cons, steps]
    obtain ⟨first, checked⟩ | ⟨outside, error, checked⟩ := checkTensor_eq dataOffset fileEnd tensor
    · obtain ⟨others, all⟩ | ⟨outside, error, all⟩ := ih
      · exact .inl ⟨⟨first, others⟩, by rw [checked]; exact all⟩
      · exact .inr ⟨fun inside => outside inside.2, error, by rw [checked]; exact all⟩
    · exact .inr ⟨fun inside => outside inside.1, error, by rw [checked]; rfl⟩

/-- The file is answered where its header is placed, and else there is an error; nothing overflows. -/
theorem layout_eq (header : Header) (position fileEnd : ℕ) :
    (header.Placed position fileEnd ∧ layout header position fileEnd = .ok (header.file position)) ∨
      (¬header.Placed position fileEnd ∧ ∃ error, layout header position fileEnd = .error (.error error)) := by
  by_cases aligned : (alignment header.metadata).isPowerOfTwo
  · have positive := Nat.pos_of_isPowerOfTwo aligned
    have small : alignment header.metadata ≤ u64Max := (alignment_le header.metadata).trans (by decide)
    have good : ¬(alignment header.metadata = 0 ∨ isPowerOfTwo (alignment header.metadata) = false) := by
      rw [(isPowerOfTwo_iff _).mpr aligned]
      simp only [positive.ne', Bool.true_eq_false, or_self, not_false_iff]
    by_cases room : position + (alignment header.metadata - 1) ≤ u64Max
    · obtain ⟨inside, checked⟩ | ⟨outside, error, checked⟩ :=
        forM_checkTensor (header.dataOffset position) fileEnd header.tensors
      · refine .inl ⟨⟨aligned, room, inside⟩, ?_⟩
        rw [Header.dataOffset] at checked
        simp [layout, good, alignedOffset_eq positive small, room, checked, bind, Except.bind, pure,
          Except.pure, Header.file,
          Header.dataOffset]
      · refine .inr ⟨fun placed => outside placed.inside, error, ?_⟩
        rw [Header.dataOffset] at checked
        simp [layout, good, alignedOffset_eq positive small, room, checked, bind, Except.bind]
    · refine .inr ⟨fun placed => room placed.room,
        .limitExceeded "aligned header offset" position (u64Max - alignment header.metadata + 1), ?_⟩
      simp [layout, good, alignedOffset_eq positive small, room, bind, Except.bind]
  · refine .inr ⟨fun placed => aligned placed.aligned, .invalidAlignment (alignment header.metadata), ?_⟩
    have bad : isPowerOfTwo (alignment header.metadata) = false := by
      rw [Bool.eq_false_iff]
      exact fun is => aligned ((isPowerOfTwo_iff _).mp is)
    simp [layout, bad, bind, Except.bind]

theorem parse_of_read {header : Header} {rest : Bytes} (read : readHeader bytes = .ok (header, rest)) :
    parse bytes = layout header (bytes.length - rest.length) bytes.length := by
  rw [parse, read]
  rfl

/-- A file is parsed where a header is read that is placed in it. -/
theorem parse_eq (bytes : Bytes) : (∃ header rest, readHeader bytes = .ok (header, rest) ∧
      header.Placed (bytes.length - rest.length) bytes.length ∧
        parse bytes = .ok (header.file (bytes.length - rest.length))) ∨
    ∃ error, parse bytes = .error (.error error) := by
  cases read : readHeader bytes with
  | error error => exact .inr ⟨error, by rw [parse, read]; rfl⟩
  | ok both =>
    obtain ⟨header, rest⟩ := both
    obtain ⟨placed, laid⟩ | ⟨-, error, laid⟩ := layout_eq header (bytes.length - rest.length) bytes.length
    · exact .inl ⟨header, rest, rfl, placed, (parse_of_read read).trans laid⟩
    · exact .inr ⟨error, (parse_of_read read).trans laid⟩

theorem le_ceilDiv_mul (position : ℕ) {alignment : ℕ} (positive : 0 < alignment) :
    position ≤ position ⌈/⌉ alignment * alignment := by
  have above : position ≤ alignment • (position ⌈/⌉ alignment) := le_smul_ceilDiv positive
  rwa [smul_eq_mul, Nat.mul_comm] at above

/-- A tensor that is inside of a file as readers measure it is so exactly. -/
theorem inside_of_dataSize {dataOffset fileEnd : ℕ} (representable : fileEnd < 2 ^ 63)
    (counted : fileEnd < 2 ^ 61 ∨ tensor.Counted)
    (within : dataOffset + tensor.offset.toNat + tensor.dataSize ≤ fileEnd) : tensor.Inside dataOffset fileEnd := by
  have counted_ : tensor.Counted := counted.elim (fun small => counted_of_small (by omega)) id
  have sized := dataSize_eq counted_
  have exact : tensor.dataSize = tensor.exactSize := by
    rw [u64Max] at sized
    omega
  rw [exact] at within
  refine ⟨counted_, within.trans ?_, within⟩
  rw [u64Max]
  omega

/-- A header within the limits is parsed from what is written of it, before data that hold its tensors. -/
theorem parse_write (empty : UInt32) {header : Header} {data : Bytes} (is : bytes = header.write empty ++ data)
    (representable : bytes.length < 2 ^ 63) (limited : header.Limited) (aligned : (alignment header.metadata).isPowerOfTwo)
    (counted : bytes.length < 2 ^ 61 ∨ ∀ tensor ∈ header.tensors, tensor.Counted) (within : ∀ tensor ∈ header.tensors,
      header.dataOffset (header.write empty).length + tensor.offset.toNat + tensor.dataSize ≤ bytes.length) :
    parse bytes = .ok (header.file (header.write empty).length) := by
  have read : readHeader bytes = .ok (header, data) := by
    rw [is]
    exact spells_readHeader empty limited data
  have position : bytes.length - data.length = (header.write empty).length :=
    by rw [is, List.length_append, Nat.add_sub_cancel]
  have placed : header.Placed (header.write empty).length bytes.length := by
    refine ⟨aligned, ?_, fun tensor mem =>
      inside_of_dataSize representable (counted.imp id fun all => all tensor mem) (within tensor mem)⟩
    have small := alignment_le header.metadata
    rw [is, List.length_append] at representable
    rw [u64Max]
    omega
  rw [parse_of_read read, position]
  obtain ⟨-, laid⟩ | ⟨outside, -⟩ := layout_eq header (header.write empty).length bytes.length
  · exact laid
  · exact absurd placed outside

/-- A parsed file has distinct keys and names, data behind the header where the alignment puts them, and tensors
inside of the bytes that are as large as readers compute; and a header is parsed from what is written of it. -/
theorem file_parse_exact (bytes : Bytes) :
    parse bytes ≠ .error .overflow ∧
    (∀ file, parse bytes = .ok file →
      (file.metadata.map Prod.fst).Nodup ∧ (file.tensors.map TensorInfo.name).Nodup ∧
      (alignment file.metadata).isPowerOfTwo ∧ alignment file.metadata ∣ file.dataOffset ∧
      (∃ front rest, bytes = front ++ rest ∧ front.length ≤ file.dataOffset ∧
        readHeader bytes = .ok ({ version := file.version, metadata := file.metadata, tensors := file.tensors }, rest)) ∧
      ∀ tensor ∈ file.tensors, file.dataOffset + tensor.offset.toNat + tensor.dataSize ≤ bytes.length ∧
        tensor.dataSize = tensor.exactSize) ∧
    ∀ (empty : UInt32) (header : Header) (data : Bytes), bytes = header.write empty ++ data → bytes.length < 2 ^ 63 →
      header.Limited → (alignment header.metadata).isPowerOfTwo →
      (bytes.length < 2 ^ 61 ∨ ∀ tensor ∈ header.tensors, tensor.Counted) →
      (∀ tensor ∈ header.tensors,
        header.dataOffset (header.write empty).length + tensor.offset.toNat + tensor.dataSize ≤ bytes.length) →
      parse bytes = .ok (header.file (header.write empty).length) := by
  refine ⟨fun refused => ?_, fun file parsed => ?_, ?_⟩
  · obtain ⟨header, rest, -, -, parsed⟩ | ⟨error, parsed⟩ := parse_eq bytes
    · rw [parsed] at refused
      cases refused
    · rw [parsed] at refused
      cases refused
  · obtain ⟨header, rest, read, placed, parsed'⟩ | ⟨error, parsed'⟩ := parse_eq bytes
    · obtain rfl := Except.ok.inj (parsed'.symm.trans parsed)
      obtain ⟨front, split⟩ := consumes_readHeader bytes header rest read
      have limited := readHeader_eq_ok read
      have length : bytes.length - rest.length = front.length := by rw [← split, List.length_append, Nat.add_sub_cancel]
      refine ⟨limited.keys, limited.names, placed.aligned, dvd_mul_left _ _, ⟨front, rest, split.symm, ?_, read⟩,
        fun tensor mem => ?_⟩
      · rw [length]
        exact le_ceilDiv_mul _ (Nat.pos_of_isPowerOfTwo placed.aligned)
      · have inside := placed.inside tensor mem
        have exact : tensor.dataSize = tensor.exactSize := by
          rw [dataSize_eq inside.counted]
          exact min_eq_left ((Nat.le_add_left _ _).trans inside.addressed)
        rw [exact]
        exact ⟨inside.within, rfl⟩
    · rw [parsed'] at parsed
      cases parsed
  · intro empty header data is representable limited aligned counted within
    exact parse_write empty is representable limited aligned counted within

/-- A header that states an alignment and a tensor of two numbers. -/
def pairHeader : Header :=
  { version := 3, metadata := [("general.alignment".toList, .u32 8)],
    tensors := [{ name := ['w'], shape := [2], dtype := .f32, offset := 0 }] }

theorem length_write_pairHeader : (pairHeader.write 0).length = 90 := by decide +kernel

theorem file_parse_exact_pair : parse (pairHeader.write 0 ++ List.replicate 14 0) = .ok (pairHeader.file 90) := by
  have length : (pairHeader.write 0 ++ List.replicate 14 0).length = 104 := by
    rw [List.length_append, length_write_pairHeader, List.length_replicate]
  have limited : pairHeader.Limited :=
    { version := by decide
      entries := by decide
      keys := by decide
      entry := by
        intro entry mem
        obtain rfl := List.mem_singleton.mp mem
        exact ⟨by decide, trivial⟩
      count := by decide
      names := by decide
      tensor := by
        intro tensor mem
        obtain rfl := List.mem_singleton.mp mem
        decide }
  have parsed := (file_parse_exact (pairHeader.write 0 ++ List.replicate 14 0)).2.2 0 pairHeader (List.replicate 14 0) rfl
    (by rw [length]; decide) limited ⟨3, by decide⟩ (.inl (by rw [length]; decide))
  rw [length_write_pairHeader, length] at parsed
  apply parsed
  intro tensor mem
  obtain rfl := List.mem_singleton.mp mem
  decide

end Muser.Gguf
