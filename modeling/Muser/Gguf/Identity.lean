import Muser.Gguf.Ranges
import Mathlib.Data.List.Lex
import Mathlib.Data.List.Nodup

/-! # The identity of a tokenizer

What is hashed of the metadata are the keys of the tokenizer in the order of their bytes, each with its value.
Keys, texts and arrays are hashed behind their lengths, and values behind their types, so that no bytes are
those of two values.
-/

namespace Muser.Gguf

open Reader

def hashLenBytes (bytes : Bytes) : Bytes := toLeBytes 8 bytes.length ++ bytes

mutual

def hashMetadataValue : MetadataValue → Bytes
  | .u8 value => 0 :: toLeBytes 1 value.toNat
  | .i8 value => 1 :: toLeBytes 1 value.toUInt8.toNat
  | .u16 value => 2 :: toLeBytes 2 value.toNat
  | .i16 value => 3 :: toLeBytes 2 value.toUInt16.toNat
  | .u32 value => 4 :: toLeBytes 4 value.toNat
  | .i32 value => 5 :: toLeBytes 4 value.toUInt32.toNat
  | .u64 value => 6 :: toLeBytes 8 value.toNat
  | .i64 value => 7 :: toLeBytes 8 value.toUInt64.toNat
  | .f32 bits => 8 :: toLeBytes 4 bits.toNat
  | .f64 bits => 9 :: toLeBytes 8 bits.toNat
  | .bool value => [10, value.toUInt8]
  | .str text => 11 :: hashLenBytes (Utf8.encodeAll text)
  | .array values => 12 :: (toLeBytes 8 values.length ++ hashMetadataValues values)

def hashMetadataValues : List MetadataValue → Bytes
  | [] => []
  | value :: values => hashMetadataValue value ++ hashMetadataValues values

end

def isTokenizerKey (key : Text) : Bool :=
  Text.startsWith key "tokenizer.".toList && key != "tokenizer.chat_template".toList

/-- Texts are sorted by their bytes. -/
def byBytes (left right : Text) : Bool := (Utf8.encodeAll left).map UInt8.toNat ≤ (Utf8.encodeAll right).map UInt8.toNat

def tokenizerKeys (metadata : Metadata) : List Text := ((metadata.map Prod.fst).filter isTokenizerKey).mergeSort byBytes

/-- What the digest of the tokenizer's metadata is taken of. -/
def tokenizerMetadataBytes (metadata : Metadata) : Bytes :=
  Utf8.encodeAll "muser.gguf-tokenizer-metadata.v1\x00".toList ++
    (tokenizerKeys metadata).flatMap fun key => hashLenBytes (Utf8.encodeAll key) ++
      (metadata.lookup key).elim [] hashMetadataValue

/-! ## Reading what is hashed -/

/-- A reader of what is hashed of a value; nothing reads it, but it could be read. -/
def readHashed (levels : ℕ) : Reader GgufError MetadataValue := do
  let tag ← readU8
  match tag.toNat with
  | 0 => readAs readU8 .u8
  | 1 => readAs readU8 fun value => .i8 value.toInt8
  | 2 => readAs readU16 .u16
  | 3 => readAs readU16 fun value => .i16 value.toInt16
  | 4 => readAs readU32 .u32
  | 5 => readAs readU32 fun value => .i32 value.toInt32
  | 6 => readAs readU64 .u64
  | 7 => readAs readU64 fun value => .i64 value.toInt64
  | 8 => readAs readU32 .f32
  | 9 => readAs readU64 .f64
  | 10 => readAs readBool .bool
  | 11 => readAs readString .str
  | 12 =>
    match levels with
    | 0 => fail (.unsupportedMetadataType 12)
    | levels + 1 => do
      let count ← readU64
      let values ← times (readHashed levels) count.toNat
      pure (.array values)
  | other => fail (.unsupportedMetadataType (UInt32.ofNat other))

theorem hashMetadataValues_eq (values : List MetadataValue) :
    hashMetadataValues values = values.flatMap hashMetadataValue := by
  induction values with
  | nil => rw [hashMetadataValues, List.flatMap_nil]
  | cons value values ih => rw [hashMetadataValues, ih, List.flatMap_cons]

theorem spells_tag (tag : UInt8) : Spells readU8 [tag] tag := by
  have spelled := spells_readU8 tag
  rwa [toLeBytes, toLeBytes, UInt8.ofNat_toNat] at spelled

variable {value : MetadataValue} {key : Text}

variable {levels : ℕ} {entry : Text × MetadataValue}

theorem spells_hashed_scalar (scalar : value.type ≠ .array) (fits : value.Fits levels) :
    Spells (readHashed levels) (hashMetadataValue value) value := by
  rw [readHashed.eq_def]
  cases value with
  | u8 value => exact (spells_tag 0).bind (spells_readAs .u8 (spells_readU8 value))
  | i8 value =>
    exact (spells_tag 1).bind (spells_readAs (fun value : UInt8 => .i8 value.toInt8) (spells_readU8 value.toUInt8))
  | u16 value => exact (spells_tag 2).bind (spells_readAs .u16 (spells_readU16 value))
  | i16 value =>
    exact (spells_tag 3).bind (spells_readAs (fun value : UInt16 => .i16 value.toInt16) (spells_readU16 value.toUInt16))
  | u32 value => exact (spells_tag 4).bind (spells_readAs .u32 (spells_readU32 value))
  | i32 value =>
    exact (spells_tag 5).bind (spells_readAs (fun value : UInt32 => .i32 value.toInt32) (spells_readU32 value.toUInt32))
  | u64 value => exact (spells_tag 6).bind (spells_readAs .u64 (spells_readU64 value))
  | i64 value =>
    exact (spells_tag 7).bind (spells_readAs (fun value : UInt64 => .i64 value.toInt64) (spells_readU64 value.toUInt64))
  | f32 bits => exact (spells_tag 8).bind (spells_readAs .f32 (spells_readU32 bits))
  | f64 bits => exact (spells_tag 9).bind (spells_readAs .f64 (spells_readU64 bits))
  | bool value =>
    apply (spells_tag 10).bind
    apply spells_readAs .bool
    cases value <;> exact (spells_tag _).bind_pure (spells_pure _)
  | str text =>
    rw [MetadataValue.Fits] at fits
    exact (spells_tag 11).bind (spells_readAs .str (spells_readString fits))
  | array values => exact absurd rfl scalar

theorem spells_hashed (fits : value.Fits levels) :
    Spells (readHashed levels) (hashMetadataValue value) value := by
  induction levels generalizing value with
  | zero =>
    apply spells_hashed_scalar _ fits
    intro is
    cases value <;> first | exact fits | cases is
  | succ levels ih =>
    by_cases scalar : value.type = .array
    · obtain ⟨values, rfl⟩ : ∃ values, value = .array values := by cases value <;> first | exact ⟨_, rfl⟩ | cases scalar
      obtain ⟨counted, -, each⟩ := fits
      have small : values.length < 2 ^ 64 := counted.trans_lt (by decide)
      have length : (UInt64.ofNat values.length).toNat = values.length := UInt64.toNat_ofNat_of_lt' small
      rw [readHashed, hashMetadataValue, hashMetadataValues_eq]
      apply (spells_tag 12).bind
      apply (spells_count small).bind
      rw [length]
      exact (spells_times fun value mem => ih (each value mem)).bind_pure (spells_pure _)
    · exact spells_hashed_scalar scalar fits

/-! ## Keys in their order -/

variable {metadata left right : Metadata}

theorem mem_tokenizerKeys : key ∈ tokenizerKeys metadata ↔ key ∈ metadata.map Prod.fst ∧ isTokenizerKey key = true := by
  rw [tokenizerKeys, List.mem_mergeSort, List.mem_filter]

theorem mem_keys_iff : key ∈ metadata.map Prod.fst ↔ (metadata.lookup key).isSome := by
  rw [List.lookup_isSome_iff, List.mem_map]
  simp only [beq_iff_eq, @eq_comm _ key]

theorem byBytes_iff {key other : Text} :
    byBytes key other = true ↔ (Utf8.encodeAll key).map UInt8.toNat ≤ (Utf8.encodeAll other).map UInt8.toNat :=
      decide_eq_true_iff

theorem sorted_tokenizerKeys (metadata : Metadata) : (tokenizerKeys metadata).Pairwise fun key other =>
    byBytes key other = true := by
  apply List.pairwise_mergeSort
  · intro one two three first second
    rw [byBytes_iff] at first second ⊢
    exact first.trans second
  · intro one two
    rw [Bool.or_eq_true, byBytes_iff, byBytes_iff]
    exact le_total _ _

/-- Maps with the same keys of a tokenizer have them in the same order. -/
theorem tokenizerKeys_eq (distinct : (left.map Prod.fst).Nodup) (distinct' : (right.map Prod.fst).Nodup)
    (same : ∀ key, isTokenizerKey key = true → left.lookup key = right.lookup key) :
    tokenizerKeys left = tokenizerKeys right := by
  have nodup {metadata : Metadata} (distinct : (metadata.map Prod.fst).Nodup) : (tokenizerKeys metadata).Nodup :=
    (List.mergeSort_perm _ _).nodup_iff.mpr (distinct.filter _)
  have perm : (tokenizerKeys left).Perm (tokenizerKeys right) := by
    rw [List.perm_ext_iff_of_nodup (nodup distinct) (nodup distinct')]
    intro key
    rw [mem_tokenizerKeys, mem_tokenizerKeys]
    apply and_congr_left
    intro is
    rw [mem_keys_iff, mem_keys_iff, same key is]
  refine perm.eq_of_pairwise (fun key other _ _ first second => ?_) (sorted_tokenizerKeys left) (sorted_tokenizerKeys right)
  have bytes := le_antisymm (byBytes_iff.mp first) (byBytes_iff.mp second)
  exact Utf8.encodeAll_injective (List.map_injective_iff.mpr (fun _ _ => UInt8.toNat_inj.mp) bytes)

/-! ## The identity -/

/-- Metadata as a file has them, iterated in any order. -/
def Parsed (metadata : Metadata) : Prop := ∃ bytes file, parse bytes = .ok file ∧ metadata.Perm file.metadata

theorem Parsed.distinct_fits (parsed : Parsed metadata) : (metadata.map Prod.fst).Nodup ∧
    ∀ entry ∈ metadata, Text.size entry.1 ≤ maxGgufStringBytes ∧ entry.2.Fits maxMetadataNesting := by
  obtain ⟨bytes, file, parsed, reordered⟩ := parsed
  obtain ⟨header, rest, read, -, parsed'⟩ | ⟨error, parsed'⟩ := parse_eq bytes
  · obtain rfl := Except.ok.inj (parsed'.symm.trans parsed)
    have limited := readHeader_eq_ok read
    exact ⟨(reordered.map _).nodup_iff.mpr limited.keys, fun entry mem => limited.entry entry (reordered.mem_iff.mp mem)⟩
  · rw [parsed'] at parsed
    cases parsed

/-- The tokenizer's entries, in the order of their keys. -/
def tokenizerEntries (metadata : Metadata) : Metadata :=
  (tokenizerKeys metadata).filterMap fun key => (metadata.lookup key).map fun value => (key, value)

def hashEntry (entry : Text × MetadataValue) : Bytes := hashLenBytes (Utf8.encodeAll entry.1) ++ hashMetadataValue entry.2

theorem mem_tokenizerEntries :
    (key, value) ∈ tokenizerEntries metadata ↔ isTokenizerKey key = true ∧ metadata.lookup key = some value := by
  rw [tokenizerEntries, List.mem_filterMap]
  constructor
  · rintro ⟨other, mem, found⟩
    obtain ⟨value', is, same⟩ := Option.map_eq_some_iff.mp found
    cases same
    exact ⟨(mem_tokenizerKeys.mp mem).2, is⟩
  · rintro ⟨is, found⟩
    refine ⟨key, mem_tokenizerKeys.mpr ⟨mem_keys_iff.mpr (Option.isSome_of_eq_some found), is⟩, ?_⟩
    rw [found, Option.map_some]

theorem flatMap_tokenizerEntries (metadata : Metadata) : (tokenizerEntries metadata).flatMap hashEntry =
    (tokenizerKeys metadata).flatMap fun key => hashLenBytes (Utf8.encodeAll key) ++
    (metadata.lookup key).elim [] hashMetadataValue := by
  have present : ∀ key ∈ tokenizerKeys metadata, (metadata.lookup key).isSome := fun key mem =>
    mem_keys_iff.mp (mem_tokenizerKeys.mp mem).1
  rw [tokenizerEntries]
  generalize tokenizerKeys metadata = keys at present ⊢
  induction keys with
  | nil => rfl
  | cons key keys ih =>
    obtain ⟨value, found⟩ := Option.isSome_iff_exists.mp (present key List.mem_cons_self)
    rw [List.filterMap_cons_some (by rw [found, Option.map_some]), List.flatMap_cons, List.flatMap_cons, found,
      ih fun key mem => present key (List.mem_cons_of_mem _ mem)]
    rfl

theorem fits_of_mem (fits : ∀ entry ∈ metadata, Text.size entry.1 ≤ maxGgufStringBytes ∧ entry.2.Fits maxMetadataNesting)
    (mem : entry ∈ tokenizerEntries metadata) :
    Text.size entry.1 ≤ maxGgufStringBytes ∧ entry.2.Fits maxMetadataNesting := by
  obtain ⟨-, found⟩ := mem_tokenizerEntries.mp mem
  obtain ⟨before, after, rfl, -⟩ := List.lookup_eq_some_iff.mp found
  exact fits entry (List.mem_append_right before List.mem_cons_self)

/-- A reader of an entry that is hashed. -/
def readHashedEntry : Reader GgufError (Text × MetadataValue) := do
  let key ← readString
  let value ← readHashed maxMetadataNesting
  pure (key, value)

theorem spells_hashEntry (short : Text.size entry.1 ≤ maxGgufStringBytes)
    (fits : entry.2.Fits maxMetadataNesting) : Spells readHashedEntry (hashEntry entry) entry := by
  apply (spells_readString short).bind
  apply (spells_hashed fits).bind_pure
  exact spells_pure _

theorem hashEntry_ne_nil (entry : Text × MetadataValue) : hashEntry entry ≠ [] := by
  intro none
  have length := congrArg List.length none
  rw [hashEntry, hashLenBytes, List.length_append, List.length_append, length_toLeBytes, List.length_nil] at length
  omega

/-- The bytes of two parsed maps are those of the same entries of the tokenizer. -/
theorem tokenizerEntries_eq (parsed : Parsed left) (parsed' : Parsed right)
    (same : tokenizerMetadataBytes left = tokenizerMetadataBytes right) :
    tokenizerEntries left = tokenizerEntries right := by
  have bodies := List.append_cancel_left same
  rw [← flatMap_tokenizerEntries, ← flatMap_tokenizerEntries] at bodies
  have spelled {metadata : Metadata} (parsed : Parsed metadata) (entry : Text × MetadataValue)
    (mem : entry ∈ tokenizerEntries metadata) :
      Spells readHashedEntry (hashEntry entry) entry := by
    obtain ⟨short, fits⟩ := fits_of_mem parsed.distinct_fits.2 mem
    exact spells_hashEntry short fits
  exact spells_flatMap_inj hashEntry_ne_nil (spelled parsed) (spelled parsed') bodies

theorem lookup_perm (distinct : (right.map Prod.fst).Nodup) (reordered : left.Perm right) (key : Text) :
    left.lookup key = right.lookup key := by
  have distinct' := (reordered.map Prod.fst).nodup_iff.mpr distinct
  ext value
  rw [lookup_iff_mem distinct', lookup_iff_mem distinct, reordered.mem_iff]

/-- What is hashed of two parsed maps is the same just where they agree on every key of the tokenizer, and the order
in which a map is iterated does not show. -/
theorem tokenizer_identity (parsed : Parsed left) (parsed' : Parsed right) :
    (tokenizerMetadataBytes left = tokenizerMetadataBytes right ↔
      ∀ key, isTokenizerKey key = true → left.lookup key = right.lookup key) ∧
    ∀ order : Metadata, order.Perm left → tokenizerMetadataBytes order = tokenizerMetadataBytes left := by
  have agree {left right : Metadata} (parsed : Parsed left) (parsed' : Parsed right)
      (same : ∀ key, isTokenizerKey key = true → left.lookup key = right.lookup key) :
      tokenizerMetadataBytes left = tokenizerMetadataBytes right := by
    rw [tokenizerMetadataBytes, tokenizerMetadataBytes, tokenizerKeys_eq parsed.distinct_fits.1 parsed'.distinct_fits.1 same]
    congr 1
    apply List.flatMap_congr
    intro key mem
    rw [same key (mem_tokenizerKeys.mp mem).2]
  refine ⟨⟨fun same key is => ?_, agree parsed parsed'⟩, fun order reordered => ?_⟩
  · have entries := tokenizerEntries_eq parsed parsed' same
    ext value
    have found : (key, value) ∈ tokenizerEntries left ↔ (key, value) ∈ tokenizerEntries right := by rw [entries]
    rw [mem_tokenizerEntries, mem_tokenizerEntries] at found
    simpa only [is, true_and] using found
  · obtain ⟨bytes, file, parsed_, reordered'⟩ := parsed
    apply agree ⟨bytes, file, parsed_, reordered.trans reordered'⟩ ⟨bytes, file, parsed_, reordered'⟩
    intro key _
    exact lookup_perm (Parsed.distinct_fits ⟨bytes, file, parsed_, reordered'⟩).1 reordered key

/-- A header with one entry of the tokenizer. -/
def modelHeader (value : MetadataValue) : Header :=
    { version := 3, metadata := [("tokenizer.x".toList, value)], tensors := [] }

theorem parsed_modelHeader (fits : value.Fits maxMetadataNesting)
    (short : ((modelHeader value).write 0).length < 2 ^ 61) : Parsed (modelHeader value).metadata := by
  have limited : (modelHeader value).Limited :=
    { version := ⟨by change (2 : UInt32) ≤ 3; decide, by change (3 : UInt32) ≤ 3; decide⟩
      entries := Nat.one_le_ofNat
      keys := List.nodup_singleton _
      entry := by
        intro entry mem
        obtain rfl := List.mem_singleton.mp mem
        exact ⟨by change Text.size "tokenizer.x".toList ≤ _; decide, fits⟩
      count := Nat.zero_le _
      names := List.nodup_nil
      tensor := nofun }
  exact ⟨_, _, parse_write 0 (List.append_nil _).symm (short.trans (by decide)) limited ⟨5, rfl⟩ (.inl short) nofun, .rfl⟩

theorem tokenizer_identity_typed :
    tokenizerMetadataBytes [("tokenizer.x".toList, .u32 1)] ≠ tokenizerMetadataBytes [("tokenizer.x".toList, .i32 1)] := by
  intro same
  have parsed : Parsed (modelHeader (.u32 1)).metadata := parsed_modelHeader trivial (by decide +kernel)
  have parsed' : Parsed (modelHeader (.i32 1)).metadata := parsed_modelHeader trivial (by decide +kernel)
  have agree := (tokenizer_identity parsed parsed').1.mp same "tokenizer.x".toList (by decide)
  cases agree

end Muser.Gguf
