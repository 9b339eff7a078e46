import Muser.Gguf.Types
import Muser.Lib.Endian
import Muser.Lib.Reader

/-! # The GGUF parser

The parser reads the header, the metadata and the tensor descriptors off the front of a file. Then it checks
that every tensor lies inside of the file. Readers only refuse; the arithmetic that is not checked at run time
may also overflow.
-/

namespace Muser.Gguf

open Reader

def ggufMagic : UInt32 := 0x46554747

def maxGgufStringBytes : ℕ := 16 * 1024 * 1024

def maxMetadataArrayItems : ℕ := 1000000

def maxMetadataNesting : ℕ := 32

def maxMetadataItems : ℕ := 100000

def maxTensors : ℕ := 1000000

def maxTensorDims : ℕ := 32

/-- A number of so many bytes. -/
def readNumber (size : ℕ) : Reader GgufError ℕ := do
  let bytes ← take size (.io .unexpectedEof)
  pure (fromLeBytes bytes)

def readU8 : Reader GgufError UInt8 := do
  let number ← readNumber 1
  pure (UInt8.ofNat number)

def readU16 : Reader GgufError UInt16 := do
  let number ← readNumber 2
  pure (UInt16.ofNat number)

def readU32 : Reader GgufError UInt32 := do
  let number ← readNumber 4
  pure (UInt32.ofNat number)

def readU64 : Reader GgufError UInt64 := do
  let number ← readNumber 8
  pure (UInt64.ofNat number)

def readString : Reader GgufError Text := do
  let rawLen ← readU64
  refuse (maxGgufStringBytes < rawLen.toNat) (.io .stringTooLong)
  let bytes ← take rawLen.toNat (.io .unexpectedEof)
  lift ((Utf8.fromUtf8 bytes).mapError fun error => .io (.invalidUtf8 error))

/-- Read what a value is made from. -/
def readAs {α : Type} (reader : Reader GgufError α) (make : α → MetadataValue) : Reader GgufError MetadataValue := do
  let value ← reader
  pure (make value)

/-- Any byte but zero is true. -/
def readBool : Reader GgufError Bool := do
  let byte ← readU8
  pure (byte != 0)

/-- Read a value of a type where so many levels of arrays may follow. -/
def readMetadataValueAtDepth (levels : ℕ) (typeTag : UInt32) : Reader GgufError MetadataValue :=
  match GgufType.ofTag typeTag with
  | some .uint8 => readAs readU8 .u8
  | some .int8 => readAs readU8 fun value => .i8 value.toInt8
  | some .uint16 => readAs readU16 .u16
  | some .int16 => readAs readU16 fun value => .i16 value.toInt16
  | some .uint32 => readAs readU32 .u32
  | some .int32 => readAs readU32 fun value => .i32 value.toInt32
  | some .float32 => readAs readU32 .f32
  | some .bool => readAs readBool .bool
  | some .string => readAs readString .str
  | some .uint64 => readAs readU64 .u64
  | some .int64 => readAs readU64 fun value => .i64 value.toInt64
  | some .float64 => readAs readU64 .f64
  | some .array =>
    match levels with
    | 0 => fail (.limitExceeded "metadata nesting" (maxMetadataNesting + 1) maxMetadataNesting)
    | levels + 1 => do
      let elemType ← readU32
      let rawLen ← readU64
      refuse (maxMetadataArrayItems < rawLen.toNat)
        (.limitExceeded "metadata array items" rawLen.toNat maxMetadataArrayItems)
      let elems ← times (readMetadataValueAtDepth levels elemType) rawLen.toNat
      pure (.array elems)
  | none => fail (.unsupportedMetadataType typeTag)

def readMetadataValue (typeTag : UInt32) : Reader GgufError MetadataValue :=
    readMetadataValueAtDepth maxMetadataNesting typeTag

def boundedCount (raw limit : ℕ) (what : String) : Reader GgufError ℕ := do
  refuse (limit < raw) (.limitExceeded what raw limit)
  pure raw

def ensureMinimumBytes (count bytesPerItem : ℕ) (what : String) : Reader GgufError Unit := do
  let remaining ← remaining
  refuse (remaining / bytesPerItem < count) (.limitExceeded what count (remaining / bytesPerItem))

/-- Read an entry whose key is new. -/
def readEntry (metadata : Metadata) : Reader GgufError (Text × MetadataValue) := do
  let key ← readString
  let typeTag ← readU32
  let value ← readMetadataValue typeTag
  refuse (key ∈ metadata.map Prod.fst) (.duplicateMetadataKey key)
  pure (key, value)

/-- Read a tensor whose name is new. -/
def readTensor (tensors : List TensorInfo) : Reader GgufError TensorInfo := do
  let name ← readString
  refuse (name ∈ tensors.map TensorInfo.name) (.duplicateTensorName name)
  let rawDims ← readU32
  let nDims ← boundedCount rawDims.toNat maxTensorDims "tensor dimensions"
  let shape ← times readU64 nDims
  let tag ← readU32
  let dtype ← lift (GgmlType.fromU32 tag)
  let offset ← readU64
  pure { name, shape, dtype, offset }

/-- What stands in front of the data. -/
structure Header where
  version : UInt32
  metadata : Metadata
  tensors : List TensorInfo

def readHeader : Reader GgufError Header := do
  let magic ← readU32
  refuse (magic != ggufMagic) (.badMagic magic)
  let version ← readU32
  refuse (version < 2 || 3 < version) (.unsupportedVersion version)
  let rawTensors ← readU64
  let rawMetadata ← readU64
  let nTensors ← boundedCount rawTensors.toNat maxTensors "tensor entries"
  let nKv ← boundedCount rawMetadata.toNat maxMetadataItems "metadata entries"
  ensureMinimumBytes rawMetadata.toNat 12 "metadata entries"
  let metadata ← more readEntry nKv []
  ensureMinimumBytes rawTensors.toNat 24 "tensor entries"
  let tensors ← more readTensor nTensors []
  pure { version, metadata, tensors }

/-! ## The ranges of the tensors -/

/-- How parsing fails: with an error, or by arithmetic that overflows. -/
inductive Fault
  | error (error : GgufError)
  | overflow
deriving DecidableEq

/-- A difference that is not checked. -/
def minus (left right : ℕ) : Except Fault ℕ := if left < right then .error .overflow else .ok (left - right)

def plus (left right : ℕ) : Except Fault ℕ := if u64Max < left + right then .error .overflow else .ok (left + right)

def mul (left right : ℕ) : Except Fault ℕ := if u64Max < left * right then .error .overflow else .ok (left * right)

def okOr {α : Type} (answer : Option α) (error : GgufError) : Except Fault α := answer.elim (.error (.error error)) .ok

def checkedTensorSize (tensor : TensorInfo) : Except Fault ℕ := do
  let product ← okOr (checkedProduct 1 tensor.shape) (.tensorSizeOverflow tensor.name)
  let elements := max product 1
  let blockElements := tensor.dtype.blockElements
  let padding ← minus blockElements 1
  let padded ← okOr (checkedAdd elements padding) (.tensorSizeOverflow tensor.name)
  let blocks := padded / blockElements
  okOr (checkedMul blocks tensor.dtype.blockSize) (.tensorSizeOverflow tensor.name)

/-- The alignment that the metadata state, if it is a number of 32 bits. -/
def alignment (metadata : Metadata) : ℕ :=
  match metadata.lookup "general.alignment".toList with
  | some (.u32 value) => value.toNat
  | _ => 32

def isPowerOfTwo (number : ℕ) : Bool := number == 2 ^ Nat.log2 number

/-- Where the data begin behind a header that ends at a position. -/
def alignedOffset (position alignment : ℕ) : Except Fault ℕ := do
  let padding ← minus alignment 1
  let room ← minus u64Max alignment
  let limit ← plus room 1
  let padded ← okOr (checkedAdd position padding) (.limitExceeded "aligned header offset" position limit)
  mul (padded / alignment) alignment

def checkTensor (dataOffset fileEnd : ℕ) (tensor : TensorInfo) : Except Fault Unit := do
  let byteSize ← checkedTensorSize tensor
  let last ← okOr ((checkedAdd dataOffset tensor.offset.toNat).bind (checkedAdd · byteSize))
    (.tensorSizeOverflow tensor.name)
  if fileEnd < last then .error (.error (.tensorOutOfBounds tensor.name)) else .ok ()

/-- Where the data of a header begin, all of its tensors lying inside of the file. -/
def layout (header : Header) (position fileEnd : ℕ) : Except Fault GgufFile := do
  let alignment := alignment header.metadata
  if alignment = 0 ∨ isPowerOfTwo alignment = false then .error (.error (.invalidAlignment alignment))
  let dataOffset ← alignedOffset position alignment
  header.tensors.forM (checkTensor dataOffset fileEnd)
  pure { version := header.version, metadata := header.metadata, tensors := header.tensors, dataOffset }

def parse (bytes : Bytes) : Except Fault GgufFile := do
  let (header, rest) ← (readHeader bytes).mapError .error
  layout header (bytes.length - rest.length) bytes.length

end Muser.Gguf
