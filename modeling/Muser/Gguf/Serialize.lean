import Muser.Gguf.Parser

/-! # Headers within the limits

A header is written with the tags, the lengths and the little-endian numbers that the parser reads. Within
the limits of the parser what is written is read back, and what is read is within the limits.
-/

namespace Muser.Gguf

open Reader

def writeString (text : Text) : Bytes := toLeBytes 8 (Text.size text) ++ Utf8.encodeAll text

/-- The type of an array's elements; an empty array may state any. -/
def elemTag (empty : UInt32) : List MetadataValue → UInt32
  | [] => empty
  | value :: _ => value.type.tag

mutual

/-- The bytes of a value behind its type. -/
def MetadataValue.write (empty : UInt32) : MetadataValue → Bytes
  | .u8 value => toLeBytes 1 value.toNat
  | .i8 value => toLeBytes 1 value.toUInt8.toNat
  | .u16 value => toLeBytes 2 value.toNat
  | .i16 value => toLeBytes 2 value.toUInt16.toNat
  | .u32 value => toLeBytes 4 value.toNat
  | .i32 value => toLeBytes 4 value.toUInt32.toNat
  | .u64 value => toLeBytes 8 value.toNat
  | .i64 value => toLeBytes 8 value.toUInt64.toNat
  | .f32 bits => toLeBytes 4 bits.toNat
  | .f64 bits => toLeBytes 8 bits.toNat
  | .bool value => toLeBytes 1 value.toUInt8.toNat
  | .str text => writeString text
  | .array values =>
    toLeBytes 4 (elemTag empty values).toNat ++ (toLeBytes 8 values.length ++ MetadataValue.writeAll empty values)

def MetadataValue.writeAll (empty : UInt32) : List MetadataValue → Bytes
  | [] => []
  | value :: values => value.write empty ++ MetadataValue.writeAll empty values

end

def writeEntry (empty : UInt32) (entry : Text × MetadataValue) : Bytes :=
  writeString entry.1 ++ (toLeBytes 4 entry.2.type.tag.toNat ++ entry.2.write empty)

def TensorInfo.write (tensor : TensorInfo) : Bytes :=
  writeString tensor.name ++ (toLeBytes 4 tensor.shape.length ++
    (tensor.shape.flatMap (fun dimension => toLeBytes 8 dimension.toNat) ++
    (toLeBytes 4 tensor.dtype.toU32.toNat ++ toLeBytes 8 tensor.offset.toNat)))

def Header.write (empty : UInt32) (header : Header) : Bytes :=
  toLeBytes 4 ggufMagic.toNat ++ (toLeBytes 4 header.version.toNat ++ (toLeBytes 8 header.tensors.length ++
    (toLeBytes 8 header.metadata.length ++
      (header.metadata.flatMap (writeEntry empty) ++ header.tensors.flatMap TensorInfo.write))))

/-- A value whose arrays nest so many levels at most, each of one type of elements. -/
def MetadataValue.Fits : ℕ → MetadataValue → Prop
  | _, .str text => Text.size text ≤ maxGgufStringBytes
  | 0, .array _ => False
  | levels + 1, .array values => values.length ≤ maxMetadataArrayItems ∧ (∃ type, ∀ value ∈ values, value.type = type) ∧
      ∀ value ∈ values, value.Fits levels
  | _, _ => True

/-- A header within the limits. -/
structure Header.Limited (header : Header) : Prop where
  version : 2 ≤ header.version ∧ header.version ≤ 3
  entries : header.metadata.length ≤ maxMetadataItems
  keys : (header.metadata.map Prod.fst).Nodup
  entry : ∀ entry ∈ header.metadata, Text.size entry.1 ≤ maxGgufStringBytes ∧ entry.2.Fits maxMetadataNesting
  count : header.tensors.length ≤ maxTensors
  names : (header.tensors.map TensorInfo.name).Nodup
  tensor : ∀ tensor ∈ header.tensors, Text.size tensor.name ≤ maxGgufStringBytes ∧ tensor.shape.length ≤ maxTensorDims

/-! ## What is written is read -/

theorem spells_readNumber {size number : ℕ} (small : number < 256 ^ size) : Spells (readNumber size)
    (toLeBytes size number) number := by
  apply (spells_take (length_toLeBytes size number)).bind_pure
  rw [fromLeBytes_toLeBytes small]
  exact spells_pure number

theorem spells_readU8 (value : UInt8) : Spells readU8 (toLeBytes 1 value.toNat) value := by
  apply (spells_readNumber value.toNat_lt).bind_pure
  rw [UInt8.ofNat_toNat]
  exact spells_pure value

theorem spells_readU16 (value : UInt16) : Spells readU16 (toLeBytes 2 value.toNat) value := by
  apply (spells_readNumber value.toNat_lt).bind_pure
  rw [UInt16.ofNat_toNat]
  exact spells_pure value

theorem spells_readU32 (value : UInt32) : Spells readU32 (toLeBytes 4 value.toNat) value := by
  apply (spells_readNumber value.toNat_lt).bind_pure
  rw [UInt32.ofNat_toNat]
  exact spells_pure value

theorem spells_readU64 (value : UInt64) : Spells readU64 (toLeBytes 8 value.toNat) value := by
  apply (spells_readNumber value.toNat_lt).bind_pure
  rw [UInt64.ofNat_toNat]
  exact spells_pure value

/-- A small number is spelled as one of 64 bits. -/
theorem spells_count {count : ℕ} (small : count < 2 ^ 64) : Spells readU64 (toLeBytes 8 count) (UInt64.ofNat count) := by
  have spelled := spells_readU64 (UInt64.ofNat count)
  rwa [UInt64.toNat_ofNat_of_lt' small] at spelled

theorem spells_readString {text : Text} (short : Text.size text ≤ maxGgufStringBytes) :
    Spells readString (writeString text) text := by
  have small : Text.size text < 2 ^ 64 := short.trans_lt (by decide)
  have counted : (UInt64.ofNat (Text.size text)).toNat = Text.size text := UInt64.toNat_ofNat_of_lt' small
  apply (spells_count small).bind
  apply Spells.after (spells_refuse _)
  · rw [counted]
    apply (spells_take rfl).bind_pure
    intro rest
    rw [lift_eq_ok_iff, Utf8.fromUtf8_encodeAll]
    exact ⟨rfl, rfl⟩
  · rw [counted]
    exact decide_eq_false (by omega)

theorem spells_readBool (value : Bool) : Spells readBool (toLeBytes 1 value.toUInt8.toNat) value := by
  apply (spells_readU8 _).bind_pure
  cases value <;> exact spells_pure _

variable {α : Type} {value : MetadataValue} {levels : ℕ} {what : String}

theorem spells_readAs {reader : Reader GgufError α} {front : Bytes} {value : α} (make : α → MetadataValue)
    (spelled : Spells reader front value) : Spells (readAs reader make) front (make value) :=
      spelled.bind_pure (spells_pure _)

theorem writeAll_eq (empty : UInt32) (values : List MetadataValue) :
    MetadataValue.writeAll empty values = values.flatMap (·.write empty) := by
  induction values with
  | nil => rw [MetadataValue.writeAll, List.flatMap_nil]
  | cons value values ih => rw [MetadataValue.writeAll, ih, List.flatMap_cons]

/-- A value that is no array is read whatever may nest. -/
theorem spells_scalar (empty : UInt32) (scalar : value.type ≠ .array) (fits : value.Fits levels) :
    Spells (readMetadataValueAtDepth levels value.type.tag) (value.write empty) value := by
  rw [readMetadataValueAtDepth.eq_def, GgufType.ofTag_tag]
  cases value with
  | u8 value => exact spells_readAs .u8 (spells_readU8 value)
  | i8 value => exact spells_readAs (fun value => .i8 value.toInt8) (spells_readU8 value.toUInt8)
  | u16 value => exact spells_readAs .u16 (spells_readU16 value)
  | i16 value => exact spells_readAs (fun value => .i16 value.toInt16) (spells_readU16 value.toUInt16)
  | u32 value => exact spells_readAs .u32 (spells_readU32 value)
  | i32 value => exact spells_readAs (fun value => .i32 value.toInt32) (spells_readU32 value.toUInt32)
  | u64 value => exact spells_readAs .u64 (spells_readU64 value)
  | i64 value => exact spells_readAs (fun value => .i64 value.toInt64) (spells_readU64 value.toUInt64)
  | f32 bits => exact spells_readAs .f32 (spells_readU32 bits)
  | f64 bits => exact spells_readAs .f64 (spells_readU64 bits)
  | bool value => exact spells_readAs .bool (spells_readBool value)
  | str text =>
    rw [MetadataValue.Fits] at fits
    exact spells_readAs .str (spells_readString fits)
  | array values => exact absurd rfl scalar

theorem spells_value (empty : UInt32) (fits : value.Fits levels) :
    Spells (readMetadataValueAtDepth levels value.type.tag) (value.write empty) value := by
  induction levels generalizing value with
  | zero =>
    apply spells_scalar empty _ fits
    intro is
    cases value <;> first | exact fits | cases is
  | succ levels ih =>
    by_cases scalar : value.type = .array
    · obtain ⟨values, rfl⟩ : ∃ values, value = .array values := by cases value <;> first | exact ⟨_, rfl⟩ | cases scalar
      obtain ⟨counted, ⟨type, same⟩, each⟩ := fits
      have small : values.length < 2 ^ 64 := counted.trans_lt (by decide)
      have length : (UInt64.ofNat values.length).toNat = values.length := UInt64.toNat_ofNat_of_lt' small
      have tagged : ∀ value ∈ values, elemTag empty values = value.type.tag := by
        intro value mem
        cases values with
        | nil => cases mem
        | cons first values => rw [elemTag, same first List.mem_cons_self, same value mem]
      rw [readMetadataValueAtDepth, GgufType.ofTag_tag, MetadataValue.write, writeAll_eq]
      apply (spells_readU32 _).bind
      apply (spells_count small).bind
      apply Spells.after (spells_refuse (by rw [length]; exact decide_eq_false (by omega)))
      rw [length]
      refine Spells.bind_pure (spells_times ?_) (spells_pure _)
      intro value mem
      rw [tagged value mem]
      exact ih (each value mem)
    · exact spells_scalar empty scalar fits

theorem spells_readEntry (empty : UInt32) {metadata : Metadata} {entry : Text × MetadataValue}
    (short : Text.size entry.1 ≤ maxGgufStringBytes) (fits : entry.2.Fits maxMetadataNesting)
    (fresh : entry.1 ∉ metadata.map Prod.fst) :
    Spells (readEntry metadata) (writeEntry empty entry) entry := by
  apply (spells_readString short).bind
  apply (spells_readU32 _).bind
  apply (spells_value empty fits).bind_pure
  exact Spells.after (spells_refuse (decide_eq_false fresh)) (spells_pure _)

theorem spells_boundedCount {raw limit : ℕ} (within : raw ≤ limit) : Spells (boundedCount raw limit what) [] raw :=
  Spells.after (spells_refuse (decide_eq_false (by omega))) (spells_pure _)

theorem spells_readTensor {tensors : List TensorInfo} {tensor : TensorInfo}
    (short : Text.size tensor.name ≤ maxGgufStringBytes)
    (dims : tensor.shape.length ≤ maxTensorDims) (fresh : tensor.name ∉ tensors.map TensorInfo.name) :
    Spells (readTensor tensors) tensor.write tensor := by
  have counted : (UInt32.ofNat tensor.shape.length).toNat = tensor.shape.length :=
    UInt32.toNat_ofNat_of_lt' (dims.trans_lt (by decide))
  have spelled := spells_readU32 (UInt32.ofNat tensor.shape.length)
  rw [counted] at spelled
  apply (spells_readString short).bind
  apply Spells.after (spells_refuse (decide_eq_false fresh))
  apply spelled.bind
  rw [counted]
  apply Spells.after (spells_boundedCount dims)
  apply (spells_times fun dimension _ => spells_readU64 dimension).bind
  apply (spells_readU32 _).bind
  refine Spells.after (fun rest => ?_ : Spells _ [] tensor.dtype) ((spells_readU64 _).bind_pure (spells_pure _))
  rw [lift_eq_ok_iff, GgmlType.fromU32_toU32]
  exact ⟨rfl, rfl⟩

/-- A count is let pass where enough bytes stand behind it. -/
theorem spells_ensure_bind {count per : ℕ} {next : Unit → Reader GgufError α} {back : Bytes} {value : α}
    (positive : 0 < per) (long : count * per ≤ back.length) (second : Spells (next ()) back value) :
    Spells (ensureMinimumBytes count per what >>= next) back value := by
  intro rest
  rw [Reader.bind_eq_ok_iff]
  refine ⟨(), back ++ rest, ?_, second rest⟩
  have enough : count ≤ (back ++ rest).length / per := by
    rw [Nat.le_div_iff_mul_le positive, List.length_append]
    omega
  exact Reader.bind_eq_ok_iff.mpr ⟨_, _, rfl, refuse_eq_ok_iff.mpr ⟨decide_eq_false (by omega), rfl⟩⟩

theorem length_flatMap_le {encode : α → Bytes} {per : ℕ} (each : ∀ value, per ≤ (encode value).length) (values : List α) :
    values.length * per ≤ (values.flatMap encode).length := by
  induction values with
  | nil => rw [List.length_nil, Nat.zero_mul]; exact Nat.zero_le _
  | cons value values ih =>
    have first := each value
    rw [List.flatMap_cons, List.length_cons, List.length_append, Nat.succ_mul]
    omega

theorem length_writeString (text : Text) : 8 ≤ (writeString text).length := by
  rw [writeString, List.length_append, length_toLeBytes]
  omega

theorem length_writeEntry (empty : UInt32) (entry : Text × MetadataValue) : 12 ≤ (writeEntry empty entry).length := by
  have key := length_writeString entry.1
  rw [writeEntry, List.length_append, List.length_append, length_toLeBytes]
  omega

theorem length_write_tensor (tensor : TensorInfo) : 24 ≤ tensor.write.length := by
  have name := length_writeString tensor.name
  rw [TensorInfo.write]
  simp only [List.length_append, length_toLeBytes]
  omega

/-- A header within the limits is read from what is written of it. -/
theorem spells_readHeader (empty : UInt32) {header : Header} (limited : header.Limited) :
    Spells readHeader (header.write empty) header := by
  obtain ⟨⟨low, high⟩, entries, keys, entry, count, names, tensor⟩ := limited
  have few : (UInt64.ofNat header.tensors.length).toNat = header.tensors.length :=
    UInt64.toNat_ofNat_of_lt' (count.trans_lt (by decide))
  have few' : (UInt64.ofNat header.metadata.length).toNat = header.metadata.length :=
    UInt64.toNat_ofNat_of_lt' (entries.trans_lt (by decide))
  apply (spells_readU32 _).bind
  apply Spells.after (spells_refuse (by decide))
  apply (spells_readU32 _).bind
  apply Spells.after (spells_refuse (by
    rw [Bool.or_eq_false_iff]
    exact ⟨decide_eq_false (UInt32.not_lt.mpr low), decide_eq_false (UInt32.not_lt.mpr high)⟩))
  apply (spells_count (count.trans_lt (by decide))).bind
  apply (spells_count (entries.trans_lt (by decide))).bind
  rw [few, few']
  apply Spells.after (spells_boundedCount count)
  apply Spells.after (spells_boundedCount entries)
  have entries_ := length_flatMap_le (length_writeEntry empty) header.metadata
  have tensors_ := length_flatMap_le length_write_tensor header.tensors
  apply spells_ensure_bind (by decide) (entries_.trans (List.sublist_append_left _ _).length_le)
  refine (spells_more fun front value back split => ?_).bind ?_
  · have mem : value ∈ header.metadata := split ▸ List.mem_append_right front List.mem_cons_self
    apply spells_readEntry empty (entry value mem).1 (entry value mem).2
    rw [split, List.map_append, List.map_cons, List.nodup_append'] at keys
    intro is
    exact keys.2.2 is List.mem_cons_self
  · apply spells_ensure_bind (by decide) tensors_
    refine (spells_more fun front value back split => ?_).bind_pure (spells_pure _)
    have mem : value ∈ header.tensors := split ▸ List.mem_append_right front List.mem_cons_self
    apply spells_readTensor (tensor value mem).1 (tensor value mem).2
    rw [split, List.map_append, List.map_cons, List.nodup_append'] at names
    intro is
    exact names.2.2 is List.mem_cons_self

end Muser.Gguf
