import Muser.Gguf.Serialize

/-! # What is read

The parser reads a header off the front of the bytes, and a header that it reads is within the limits.
-/

namespace Muser.Gguf

open Reader

variable {bytes rest : Bytes}

theorem readString_eq_ok {text : Text} (read : readString bytes = .ok (text, rest)) :
    Text.size text ≤ maxGgufStringBytes := by
  obtain ⟨rawLen, _, -, read⟩ := Reader.bind_eq_ok_iff.mp read
  obtain ⟨_, _, small, read⟩ := Reader.bind_eq_ok_iff.mp read
  obtain ⟨front, _, taken, read⟩ := Reader.bind_eq_ok_iff.mp read
  obtain ⟨within, -⟩ := refuse_eq_ok_iff.mp small
  obtain ⟨-, length⟩ := take_eq_ok_iff.mp taken
  obtain ⟨decoded, -⟩ := lift_eq_ok_iff.mp read
  have is : Utf8.fromUtf8 front = .ok text := by
    cases found : Utf8.fromUtf8 front with
    | error failure => rw [found] at decoded; cases decoded
    | ok other => rw [found] at decoded; cases decoded; rfl
  rw [Text.size, Utf8.encodeAll_of_fromUtf8 is, length]
  exact not_lt.mp (of_decide_eq_false within)

variable {value : MetadataValue} {typeTag : UInt32}

theorem readAs_eq_ok {α : Type} {reader : Reader GgufError α} {make : α → MetadataValue}
    (read : readAs reader make bytes = .ok (value, rest)) : ∃ part, reader bytes = .ok (part, rest) ∧ value = make part := by
  obtain ⟨part, middle, parted, made⟩ := Reader.bind_eq_ok_iff.mp read
  obtain ⟨rfl, rfl⟩ := pure_eq_ok_iff.mp made
  exact ⟨part, parted, rfl⟩

theorem scalar_fits {levels : ℕ} (scalar : GgufType.ofTag typeTag ≠ some .array)
    (read : readMetadataValueAtDepth levels typeTag bytes = .ok (value, rest)) :
    value.Fits levels ∧ GgufType.ofTag typeTag = some value.type := by
  rw [readMetadataValueAtDepth.eq_def] at read
  cases is : GgufType.ofTag typeTag with
  | none =>
    rw [is] at read
    cases read
  | some type =>
    rw [is] at read scalar
    cases type
    case array => exact absurd rfl scalar
    case string =>
      obtain ⟨text, named, rfl⟩ := readAs_eq_ok read
      rw [MetadataValue.Fits]
      exact ⟨readString_eq_ok named, rfl⟩
    all_goals
      obtain ⟨part, -, rfl⟩ := readAs_eq_ok read
      exact ⟨by cases levels <;> exact trivial, rfl⟩

/-- A value that is read fits, and is of the type it was read for. -/
theorem readMetadataValueAtDepth_eq_ok {levels : ℕ}
    (read : readMetadataValueAtDepth levels typeTag bytes = .ok (value, rest)) :
    value.Fits levels ∧ GgufType.ofTag typeTag = some value.type := by
  induction levels generalizing typeTag value bytes rest with
  | zero =>
    by_cases is : GgufType.ofTag typeTag = some .array
    · rw [readMetadataValueAtDepth.eq_def, is] at read
      cases read
    · exact scalar_fits is read
  | succ levels ih =>
    by_cases is : GgufType.ofTag typeTag = some .array
    · rw [readMetadataValueAtDepth.eq_def, is] at read
      obtain ⟨elemType, _, -, read⟩ := Reader.bind_eq_ok_iff.mp read
      obtain ⟨rawLen, _, -, read⟩ := Reader.bind_eq_ok_iff.mp read
      obtain ⟨_, _, small, read⟩ := Reader.bind_eq_ok_iff.mp read
      obtain ⟨elems, _, items, made⟩ := Reader.bind_eq_ok_iff.mp read
      obtain ⟨within, -⟩ := refuse_eq_ok_iff.mp small
      obtain ⟨rfl, -⟩ := pure_eq_ok_iff.mp made
      obtain ⟨counted, each⟩ := times_eq_ok items
      have fits (elem : MetadataValue) (mem : elem ∈ elems) : elem.Fits levels ∧
          GgufType.ofTag elemType = some elem.type := by
        obtain ⟨before, after, one⟩ := each elem mem
        exact ih one
      refine ⟨⟨?_, ?_, fun elem mem => (fits elem mem).1⟩, is⟩
      · rw [counted]
        exact not_lt.mp (of_decide_eq_false within)
      · cases elems with
        | nil => exact ⟨.uint8, List.forall_mem_nil _⟩
        | cons first elems =>
          refine ⟨first.type, fun elem mem => ?_⟩
          have same := (fits elem mem).2.symm.trans (fits first List.mem_cons_self).2
          exact Option.some.inj same
    · exact scalar_fits is read

theorem readEntry_eq_ok {metadata : Metadata} {entry : Text × MetadataValue}
    (read : readEntry metadata bytes = .ok (entry, rest)) :
    (Text.size entry.1 ≤ maxGgufStringBytes ∧ entry.2.Fits maxMetadataNesting) ∧ entry.1 ∉ metadata.map Prod.fst := by
  obtain ⟨key, _, named, read⟩ := Reader.bind_eq_ok_iff.mp read
  obtain ⟨typeTag, _, -, read⟩ := Reader.bind_eq_ok_iff.mp read
  obtain ⟨value, _, valued, read⟩ := Reader.bind_eq_ok_iff.mp read
  obtain ⟨_, _, fresh, made⟩ := Reader.bind_eq_ok_iff.mp read
  obtain ⟨rfl, -⟩ := pure_eq_ok_iff.mp made
  exact ⟨⟨readString_eq_ok named, (readMetadataValueAtDepth_eq_ok valued).1⟩,
    of_decide_eq_false (refuse_eq_ok_iff.mp fresh).1⟩

theorem boundedCount_eq_ok {raw limit count : ℕ} {what : String}
    (read : boundedCount raw limit what bytes = .ok (count, rest)) :
    raw = count ∧ count ≤ limit := by
  obtain ⟨_, _, within, made⟩ := Reader.bind_eq_ok_iff.mp read
  obtain ⟨rfl, -⟩ := pure_eq_ok_iff.mp made
  exact ⟨rfl, not_lt.mp (of_decide_eq_false (refuse_eq_ok_iff.mp within).1)⟩

theorem readTensor_eq_ok {tensors : List TensorInfo} {tensor : TensorInfo}
    (read : readTensor tensors bytes = .ok (tensor, rest)) :
    (Text.size tensor.name ≤ maxGgufStringBytes ∧ tensor.shape.length ≤ maxTensorDims) ∧
      tensor.name ∉ tensors.map TensorInfo.name := by
  obtain ⟨name, _, named, read⟩ := Reader.bind_eq_ok_iff.mp read
  obtain ⟨_, _, fresh, read⟩ := Reader.bind_eq_ok_iff.mp read
  obtain ⟨rawDims, _, -, read⟩ := Reader.bind_eq_ok_iff.mp read
  obtain ⟨nDims, _, bounded, read⟩ := Reader.bind_eq_ok_iff.mp read
  obtain ⟨shape, _, shaped, read⟩ := Reader.bind_eq_ok_iff.mp read
  obtain ⟨tag, _, -, read⟩ := Reader.bind_eq_ok_iff.mp read
  obtain ⟨dtype, _, -, read⟩ := Reader.bind_eq_ok_iff.mp read
  obtain ⟨offset, _, -, made⟩ := Reader.bind_eq_ok_iff.mp read
  obtain ⟨rfl, -⟩ := pure_eq_ok_iff.mp made
  refine ⟨⟨readString_eq_ok named, ?_⟩, of_decide_eq_false (refuse_eq_ok_iff.mp fresh).1⟩
  rw [(times_eq_ok shaped).1]
  exact (boundedCount_eq_ok bounded).2

/-- Items that are read with a new key each have distinct ones. -/
theorem distinct_of_more {α κ : Type} (key : α → κ) (good : α → Prop) {item : List α → Reader GgufError α} {count : ℕ}
    {found : List α}
    (step : ∀ items bytes value rest, item items bytes = .ok (value, rest) → good value ∧ key value ∉ items.map key)
    (read : more item count [] bytes = .ok (found, rest)) :
    (found.map key).Nodup ∧ (∀ value ∈ found, good value) ∧ found.length = count := by
  have kept (items : List α) (bytes : Bytes) (value : α) (rest : Bytes) (before : (items.map key).Nodup ∧
    ∀ value ∈ items, good value)
      (one : item items bytes = .ok (value, rest)) :
      ((items ++ [value]).map key).Nodup ∧ ∀ other ∈ items ++ [value], good other := by
    obtain ⟨good_, fresh⟩ := step items bytes value rest one
    refine ⟨?_, fun other mem => ?_⟩
    · rw [List.map_append, List.map_singleton]
      exact List.concat_eq_append ▸ before.1.concat fresh
    · obtain mem | mem := List.mem_append.mp mem
      · exact before.2 other mem
      · rwa [List.mem_singleton.mp mem]
  have none : (([] : List α).map key).Nodup ∧ ∀ value ∈ ([] : List α), good value := ⟨List.nodup_nil, nofun⟩
  obtain ⟨⟨distinct, each⟩, counted⟩ := more_eq_ok _ kept none read
  exact ⟨distinct, each, counted.trans (Nat.zero_add count)⟩

/-- A header that is read is within the limits. -/
theorem readHeader_eq_ok {header : Header} (read : readHeader bytes = .ok (header, rest)) : header.Limited := by
  obtain ⟨magic, _, -, read⟩ := Reader.bind_eq_ok_iff.mp read
  obtain ⟨_, _, -, read⟩ := Reader.bind_eq_ok_iff.mp read
  obtain ⟨version, _, -, read⟩ := Reader.bind_eq_ok_iff.mp read
  obtain ⟨_, _, supported, read⟩ := Reader.bind_eq_ok_iff.mp read
  obtain ⟨rawTensors, _, -, read⟩ := Reader.bind_eq_ok_iff.mp read
  obtain ⟨rawMetadata, _, -, read⟩ := Reader.bind_eq_ok_iff.mp read
  obtain ⟨nTensors, _, boundedTensors, read⟩ := Reader.bind_eq_ok_iff.mp read
  obtain ⟨nKv, _, boundedKv, read⟩ := Reader.bind_eq_ok_iff.mp read
  obtain ⟨_, _, -, read⟩ := Reader.bind_eq_ok_iff.mp read
  obtain ⟨metadata, _, entries, read⟩ := Reader.bind_eq_ok_iff.mp read
  obtain ⟨_, _, -, read⟩ := Reader.bind_eq_ok_iff.mp read
  obtain ⟨tensors, _, infos, made⟩ := Reader.bind_eq_ok_iff.mp read
  obtain ⟨rfl, -⟩ := pure_eq_ok_iff.mp made
  obtain ⟨keys, entry, numbered⟩ := distinct_of_more Prod.fst _ (fun _ _ _ _ => readEntry_eq_ok) entries
  obtain ⟨names, tensor, numbered'⟩ := distinct_of_more TensorInfo.name _ (fun _ _ _ _ => readTensor_eq_ok) infos
  obtain ⟨low, high⟩ := Bool.or_eq_false_iff.mp (refuse_eq_ok_iff.mp supported).1
  refine ⟨⟨UInt32.not_lt.mp (of_decide_eq_false low), UInt32.not_lt.mp (of_decide_eq_false high)⟩, ?_, keys, entry,
    ?_, names, tensor⟩
  · rw [numbered]
    exact (boundedCount_eq_ok boundedKv).2
  · rw [numbered']
    exact (boundedCount_eq_ok boundedTensors).2

/-! ## The end of the header -/

theorem consumes_readNumber (size : ℕ) : Consumes (readNumber size) :=
  (consumes_take size _).bind fun _ => consumes_pure _

theorem consumes_readU8 : Consumes readU8 := (consumes_readNumber 1).bind fun _ => consumes_pure _

theorem consumes_readU16 : Consumes readU16 := (consumes_readNumber 2).bind fun _ => consumes_pure _

theorem consumes_readU32 : Consumes readU32 := (consumes_readNumber 4).bind fun _ => consumes_pure _

theorem consumes_readU64 : Consumes readU64 := (consumes_readNumber 8).bind fun _ => consumes_pure _

theorem consumes_readBool : Consumes readBool := consumes_readU8.bind fun _ => consumes_pure _

theorem consumes_readString : Consumes readString := by
  apply consumes_readU64.bind
  intro rawLen
  apply (consumes_refuse _ _).bind
  intro _
  apply (consumes_take _ _).bind
  intro bytes
  exact consumes_lift _

theorem consumes_readAs {α : Type} {reader : Reader GgufError α} (consumes : Consumes reader) (make : α → MetadataValue) :
    Consumes (readAs reader make) := consumes.bind fun _ => consumes_pure _

theorem consumes_scalar (levels : ℕ) (scalar : GgufType.ofTag typeTag ≠ some .array) :
    Consumes (readMetadataValueAtDepth levels typeTag) := by
  rw [readMetadataValueAtDepth.eq_def]
  cases is : GgufType.ofTag typeTag with
  | none => exact consumes_fail _
  | some type =>
    cases type with
    | array => exact absurd is scalar
    | uint8 | int8 => exact consumes_readAs consumes_readU8 _
    | uint16 | int16 => exact consumes_readAs consumes_readU16 _
    | uint32 | int32 | float32 => exact consumes_readAs consumes_readU32 _
    | uint64 | int64 | float64 => exact consumes_readAs consumes_readU64 _
    | bool => exact consumes_readAs consumes_readBool _
    | string => exact consumes_readAs consumes_readString _

theorem consumes_readMetadataValueAtDepth (levels : ℕ) (typeTag : UInt32) :
    Consumes (readMetadataValueAtDepth levels typeTag) := by
  by_cases is : GgufType.ofTag typeTag = some .array
  · induction levels generalizing typeTag with
    | zero =>
      rw [readMetadataValueAtDepth.eq_def, is]
      exact consumes_fail _
    | succ levels ih =>
      rw [readMetadataValueAtDepth.eq_def, is]
      apply consumes_readU32.bind
      intro elemType
      apply consumes_readU64.bind
      intro rawLen
      apply (consumes_refuse _ _).bind
      intro _
      refine (Consumes.times ?_ _).bind fun elems => consumes_pure _
      by_cases nested : GgufType.ofTag elemType = some .array
      · exact ih elemType nested
      · exact consumes_scalar levels nested
  · exact consumes_scalar levels is

theorem consumes_boundedCount (raw limit : ℕ) (what : String) : Consumes (boundedCount raw limit what) :=
  (consumes_refuse _ _).bind fun _ => consumes_pure _

theorem consumes_ensureMinimumBytes (count per : ℕ) (what : String) : Consumes (ensureMinimumBytes count per what) :=
  consumes_remaining.bind fun _ => consumes_refuse _ _

theorem consumes_readEntry (metadata : Metadata) : Consumes (readEntry metadata) := by
  apply consumes_readString.bind
  intro key
  apply consumes_readU32.bind
  intro typeTag
  apply (consumes_readMetadataValueAtDepth maxMetadataNesting typeTag).bind
  intro value
  exact (consumes_refuse _ _).bind fun _ => consumes_pure _

theorem consumes_readTensor (tensors : List TensorInfo) : Consumes (readTensor tensors) := by
  apply consumes_readString.bind
  intro name
  apply (consumes_refuse _ _).bind
  intro _
  apply consumes_readU32.bind
  intro rawDims
  apply (consumes_boundedCount _ _ _).bind
  intro nDims
  apply (consumes_readU64.times nDims).bind
  intro shape
  apply consumes_readU32.bind
  intro tag
  apply (consumes_lift _).bind
  intro dtype
  exact consumes_readU64.bind fun _ => consumes_pure _

/-- The header is the front of the bytes. -/
theorem consumes_readHeader : Consumes readHeader := by
  apply consumes_readU32.bind
  intro magic
  apply (consumes_refuse _ _).bind
  intro _
  apply consumes_readU32.bind
  intro version
  apply (consumes_refuse _ _).bind
  intro _
  apply consumes_readU64.bind
  intro rawTensors
  apply consumes_readU64.bind
  intro rawMetadata
  apply (consumes_boundedCount _ _ _).bind
  intro nTensors
  apply (consumes_boundedCount _ _ _).bind
  intro nKv
  apply (consumes_ensureMinimumBytes _ _ _).bind
  intro _
  apply (consumes_more consumes_readEntry nKv []).bind
  intro metadata
  apply (consumes_ensureMinimumBytes _ _ _).bind
  intro _
  exact (consumes_more consumes_readTensor nTensors []).bind fun _ => consumes_pure _

end Muser.Gguf
