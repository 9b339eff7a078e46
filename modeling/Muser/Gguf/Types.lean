import Muser.Lib.Text
import Mathlib.Algebra.BigOperators.Group.List.Basic
import Mathlib.Algebra.Order.Floor.Div

/-! # What a GGUF file says

The numbers of a tensor are 64-bit ones: a product of dimensions that does not fit is taken for the largest
number, and so is a size that does not fit.
-/

namespace Muser.Gguf

/-- The types of tensor elements. -/
inductive GgmlType
  | f32 | f16 | q4_0 | q4_1 | q5_0 | q5_1 | q8_0 | q2_K | q3_K | q4_K | q5_K | q6_K | iq2_XXS | iq2_XS | iq3_XXS | iq1_S
  | iq4_NL | iq3_S | iq2_S | iq4_XS | iq1_M | bf16 | iq3_K | nvfp4_E2M1 | f8_E4M3FN
deriving DecidableEq

/-- A value of the metadata; a floating-point number is held by its bits. -/
inductive MetadataValue
  | u8 (value : UInt8)
  | i8 (value : Int8)
  | u16 (value : UInt16)
  | i16 (value : Int16)
  | u32 (value : UInt32)
  | i32 (value : Int32)
  | u64 (value : UInt64)
  | i64 (value : Int64)
  | f32 (bits : UInt32)
  | f64 (bits : UInt64)
  | bool (value : Bool)
  | str (text : Text)
  | array (values : List MetadataValue)

/-- The entries of the metadata, in the order in which they were inserted. -/
abbrev Metadata := List (Text × MetadataValue)

structure TensorInfo where
  name : Text
  shape : List UInt64
  dtype : GgmlType
  offset : UInt64
deriving DecidableEq

structure GgufFile where
  version : UInt32
  metadata : Metadata
  tensors : List TensorInfo
  dataOffset : ℕ

inductive IoError
  | unexpectedEof
  | stringTooLong
  | invalidUtf8 (error : Utf8.Utf8Error)
deriving DecidableEq

inductive GgufError
  | badMagic (magic : UInt32)
  | unsupportedVersion (version : UInt32)
  | unsupportedType (tag : UInt32)
  | unsupportedMetadataType (tag : UInt32)
  | limitExceeded (what : String) (value limit : ℕ)
  | invalidAlignment (alignment : ℕ)
  | tensorSizeOverflow (tensor : Text)
  | tensorOutOfBounds (tensor : Text)
  | duplicateMetadataKey (key : Text)
  | duplicateTensorName (name : Text)
  | io (error : IoError)
deriving DecidableEq

namespace GgmlType

/-- The number that stands for a type. -/
def toU32 : GgmlType → UInt32
  | f32 => 0 | f16 => 1 | q4_0 => 2 | q4_1 => 3 | q5_0 => 6 | q5_1 => 7 | q8_0 => 8 | q2_K => 10 | q3_K => 11 | q4_K => 12
  | q5_K => 13 | q6_K => 14 | iq2_XXS => 16 | iq2_XS => 17 | iq3_XXS => 18 | iq1_S => 19 | iq4_NL => 20 | iq3_S => 21
  | iq2_S => 22 | iq4_XS => 23 | iq1_M => 29 | bf16 => 30 | iq3_K => 138 | nvfp4_E2M1 => 1000 | f8_E4M3FN => 1001

def fromU32 (tag : UInt32) : Except GgufError GgmlType :=
  match tag.toNat with
  | 0 => .ok f32 | 1 => .ok f16 | 2 => .ok q4_0 | 3 => .ok q4_1 | 6 => .ok q5_0 | 7 => .ok q5_1 | 8 => .ok q8_0
  | 10 => .ok q2_K | 11 => .ok q3_K | 12 => .ok q4_K | 13 => .ok q5_K | 14 => .ok q6_K | 16 => .ok iq2_XXS | 17 => .ok iq2_XS
  | 18 => .ok iq3_XXS | 19 => .ok iq1_S | 20 => .ok iq4_NL | 21 => .ok iq3_S | 22 => .ok iq2_S | 23 => .ok iq4_XS
  | 29 => .ok iq1_M | 30 => .ok bf16 | 138 => .ok iq3_K | 1000 => .ok nvfp4_E2M1 | 1001 => .ok f8_E4M3FN
  | _ => .error (.unsupportedType tag)

/-- Bytes of a block. -/
def blockSize : GgmlType → ℕ
  | f32 => 4 | f16 => 2 | q4_0 => 2 + 16 | q4_1 => 4 + 16 | q5_0 => 22 | q5_1 => 24 | q8_0 => 2 + 32 | q2_K => 84
  | q3_K => 110 | q4_K => 144 | q5_K => 176 | q6_K => 210 | iq2_XXS => 66 | iq2_XS => 74 | iq3_XXS => 98 | iq3_S => 110
  | iq2_S => 82 | iq4_NL => 18 | iq4_XS => 136 | iq1_S => 50 | iq1_M => 56 | bf16 => 2 | iq3_K => 110 | nvfp4_E2M1 => 1
  | f8_E4M3FN => 1

/-- Elements of a block. -/
def blockElements : GgmlType → ℕ
  | f32 | f16 | bf16 => 1
  | f8_E4M3FN => 1
  | nvfp4_E2M1 => 2
  | q4_0 | q4_1 | q5_0 | q5_1 | q8_0 | iq4_NL => 32
  | q2_K | q3_K | q4_K | q5_K | q6_K | iq2_XXS | iq2_XS | iq3_XXS | iq3_S | iq2_S | iq4_XS | iq1_S | iq1_M | iq3_K => 256

theorem fromU32_toU32 (type : GgmlType) : fromU32 type.toU32 = .ok type := by
  cases type <;> rfl

theorem blockElements_pos (type : GgmlType) : 0 < type.blockElements := by
  cases type <;> decide

theorem blockSize_pos (type : GgmlType) : 0 < type.blockSize := by
  cases type <;> decide

end GgmlType

/-! ## Numbers of 64 bits -/

def u64Max : ℕ := 2 ^ 64 - 1

def checkedAdd (left right : ℕ) : Option ℕ := if left + right ≤ u64Max then some (left + right) else none

def checkedMul (left right : ℕ) : Option ℕ := if left * right ≤ u64Max then some (left * right) else none

def saturatingMul (left right : ℕ) : ℕ := min (left * right) u64Max

/-- The product of the dimensions, multiplied from the first on. -/
def checkedProduct : ℕ → List UInt64 → Option ℕ
  | product, [] => some product
  | product, dimension :: shape => do
    let product ← checkedMul product dimension.toNat
    checkedProduct product shape

theorem checkedAdd_eq_some_iff {left right sum : ℕ} : checkedAdd left right = some sum ↔ left + right = sum ∧
    sum ≤ u64Max := by
  rw [checkedAdd]
  split <;> simp <;> omega

theorem checkedMul_eq_some_iff {left right product : ℕ} :
    checkedMul left right = some product ↔ left * right = product ∧ product ≤ u64Max := by
  rw [checkedMul]
  split
  · next small => exact ⟨fun is => by cases is; exact ⟨rfl, small⟩, fun is => by rw [is.1]⟩
  · next large => exact ⟨nofun, fun is => absurd (is.1 ▸ is.2) large⟩

/-- The product of some dimensions. -/
def product (shape : List UInt64) : ℕ := (shape.map UInt64.toNat).prod

theorem checkedProduct_eq {first total : ℕ} {shape : List UInt64} (fits : checkedProduct first shape = some total) :
    total = first * product shape := by
  induction shape generalizing first with
  | nil =>
    cases fits
    exact (Nat.mul_one _).symm
  | cons dimension shape ih =>
    obtain ⟨next, multiplied, fits⟩ := Option.bind_eq_some_iff.mp fits
    obtain ⟨rfl, -⟩ := checkedMul_eq_some_iff.mp multiplied
    rw [ih fits, product, product, List.map_cons, List.prod_cons, Nat.mul_assoc]

/-- A product is kept where those of all the first dimensions fit. -/
theorem checkedProduct_isSome_iff {first : ℕ} {shape : List UInt64} (small : first ≤ u64Max) :
    (checkedProduct first shape).isSome ↔ ∀ front, front <+: shape → first * product front ≤ u64Max := by
  induction shape generalizing first with
  | nil =>
    refine ⟨fun _ front is => ?_, fun _ => rfl⟩
    rw [List.prefix_nil.mp is]
    exact (Nat.mul_one first).trans_le small
  | cons dimension shape ih =>
    have more (front : List UInt64) : first * product (dimension :: front) = first * dimension.toNat * product front := by
      rw [product, product, List.map_cons, List.prod_cons, Nat.mul_assoc]
    rw [checkedProduct]
    constructor
    · intro fits front is
      cases multiplied : checkedMul first dimension.toNat with
      | none =>
        rw [multiplied] at fits
        cases fits
      | some next =>
        rw [multiplied] at fits
        obtain ⟨rfl, small'⟩ := checkedMul_eq_some_iff.mp multiplied
        obtain rfl | ⟨tail, rfl, is'⟩ := List.prefix_cons_iff.mp is
        · exact (Nat.mul_one first).trans_le small
        · rw [more]
          exact (ih small').mp fits tail is'
    · intro fit
      have next : first * dimension.toNat ≤ u64Max := by
        have one := fit [dimension] (List.prefix_append [dimension] shape)
        rwa [more, product, List.map_nil, List.prod_nil, Nat.mul_one] at one
      rw [checkedMul, if_pos next]
      apply (ih next).mpr
      intro front is
      rw [← more]
      exact fit _ (List.prefix_cons_inj dimension |>.mpr is)

/-- Entries with distinct keys are looked up. -/
theorem lookup_iff_mem {κ α : Type} [BEq κ] [LawfulBEq κ] {entries : List (κ × α)}
    (distinct : (entries.map Prod.fst).Nodup) {key : κ} {value : α} :
    entries.lookup key = some value ↔ (key, value) ∈ entries := by
  constructor
  · intro found
    obtain ⟨before, after, rfl, -⟩ := List.lookup_eq_some_iff.mp found
    exact List.mem_append_right before List.mem_cons_self
  · intro mem
    obtain ⟨before, after, rfl⟩ := List.append_of_mem mem
    refine List.lookup_eq_some_iff.mpr ⟨before, after, rfl, fun entry mem' => ?_⟩
    rw [List.map_append, List.map_cons, List.nodup_append'] at distinct
    rw [bne_iff_ne]
    rintro rfl
    exact distinct.2.2 (List.mem_map_of_mem mem') List.mem_cons_self

namespace TensorInfo

def nElements (tensor : TensorInfo) : ℕ := max ((checkedProduct 1 tensor.shape).getD u64Max) 1

def dataSize (tensor : TensorInfo) : ℕ :=
  saturatingMul (tensor.nElements ⌈/⌉ tensor.dtype.blockElements) tensor.dtype.blockSize

end TensorInfo

/-! ## Values -/

/-- The types of metadata values. -/
inductive GgufType
  | uint8 | int8 | uint16 | int16 | uint32 | int32 | float32 | bool | string | array | uint64 | int64 | float64
deriving DecidableEq

namespace GgufType

def tag : GgufType → UInt32
  | uint8 => 0 | int8 => 1 | uint16 => 2 | int16 => 3 | uint32 => 4 | int32 => 5 | float32 => 6 | bool => 7 | string => 8
  | array => 9 | uint64 => 10 | int64 => 11 | float64 => 12

/-- The type that a tag stands for. -/
def ofTag (tag : UInt32) : Option GgufType :=
  match tag.toNat with
  | 0 => some uint8 | 1 => some int8 | 2 => some uint16 | 3 => some int16 | 4 => some uint32 | 5 => some int32
  | 6 => some float32 | 7 => some bool | 8 => some string | 9 => some array | 10 => some uint64 | 11 => some int64
  | 12 => some float64 | _ => none

theorem ofTag_tag (type : GgufType) : ofTag type.tag = some type := by
  cases type <;> rfl

end GgufType

def MetadataValue.type : MetadataValue → GgufType
  | u8 _ => .uint8
  | i8 _ => .int8
  | u16 _ => .uint16
  | i16 _ => .int16
  | u32 _ => .uint32
  | i32 _ => .int32
  | u64 _ => .uint64
  | i64 _ => .int64
  | f32 _ => .float32
  | f64 _ => .float64
  | bool _ => .bool
  | str _ => .string
  | array _ => .array

end Muser.Gguf
