import Muser.Lib.Check
import Muser.Quant.Dot

/-! # Mapped weights

The tensors of a file are views of its bytes. A row of a view is dequantized block by block, or multiplied without
that. Sizes are computed in arithmetic that wraps.
-/

namespace Muser.Quant

open Gguf (GgmlType GgufFile TensorInfo)

/-! ## Opening a file -/

inductive MuseConfigError
  | missingTensor (name : Text)
  | geometry (problem : Text)
deriving DecidableEq

/-- What the index has of a tensor. -/
structure Entry where
  start : ℕ
  len : ℕ
  dtype : GgmlType
  shape : List UInt64
deriving DecidableEq

/-- A mapped file and its tensors, the last one first. -/
structure MuseWeights where
  mapped : Bytes
  index : List (Text × Entry)
deriving DecidableEq

/-- A number of 64 bits that wraps. -/
def wrap (number : ℕ) : ℕ := number % 2 ^ 64

/-- Multiplied in numbers of 64 bits. -/
def elementCount (shape : List UInt64) : UInt64 := shape.foldl (· * ·) 1

def entryOf (dataOffset : ℕ) (tensor : TensorInfo) : Entry :=
  { start := wrap (dataOffset + tensor.offset.toNat)
    len := wrap ((elementCount tensor.shape).toNat ⌈/⌉ tensor.dtype.blockElements * tensor.dtype.blockSize)
    dtype := tensor.dtype
    shape := tensor.shape }

def indexTensor (mapped : Bytes) (dataOffset : ℕ) (index : List (Text × Entry)) (tensor : TensorInfo) :
    Except MuseConfigError (List (Text × Entry)) := do
  let entry := entryOf dataOffset tensor
  reject (mapped.length < wrap (entry.start + entry.len)) (.geometry ("tensor ".toList ++ tensor.name ++
    s!" runs past end of file ({entry.start} + {entry.len} > {mapped.length})".toList))
  .ok ((tensor.name, entry) :: index)

/-- How a type is shown. -/
def showType : GgmlType → String
  | .f32 => "F32" | .f16 => "F16" | .q4_0 => "Q4_0" | .q4_1 => "Q4_1" | .q5_0 => "Q5_0" | .q5_1 => "Q5_1" | .q8_0 => "Q8_0"
  | .q2_K =>
    "Q2_K" | .q3_K => "Q3_K" | .q4_K => "Q4_K" | .q5_K => "Q5_K" | .q6_K => "Q6_K" | .iq2_XXS =>
      "IQ2_XXS" | .iq2_XS => "IQ2_XS"
  | .iq3_XXS =>
    "IQ3_XXS" | .iq1_S => "IQ1_S" | .iq4_NL => "IQ4_NL" | .iq3_S => "IQ3_S" | .iq2_S => "IQ2_S" | .iq4_XS => "IQ4_XS"
  | .iq1_M => "IQ1_M" | .bf16 => "BF16" | .iq3_K => "IQ3_K" | .nvfp4_E2M1 => "NVFP4_E2M1" | .f8_E4M3FN => "F8_E4M3FN"

def showShape (shape : List UInt64) : String := "[" ++
    ", ".intercalate (shape.map fun dimension => toString dimension) ++ "]"

/-- The bits stand for a finite number. -/
def isFinite (bits : UInt32) : Bool := (bits >>> 23) &&& 0xFF != 0xFF

/-- The bits stand for a number that is not above zero. -/
def notPositive (bits : UInt32) : Bool := bits >>> 31 != 0 || bits == 0

def dimension (shape : List UInt64) (index : ℕ) (missing : UInt64) : ℕ := (shape.getD index missing).toNat

/-- The single number of a companion. -/
def scalar (weights : MuseWeights) (name : Text) (entry : Entry) (what : String) : Except MuseConfigError UInt32 := do
  reject (entry.dtype != .f32 || entry.shape != [1] || entry.len != 4)
    (.geometry (what.toList ++ name ++ " must be scalar F32".toList))
  let bits := u32At (slice weights.mapped entry.start 4) 0
  reject (!isFinite bits || notPositive bits) (.geometry (what.toList ++ name ++ " must be finite and positive".toList))
  .ok bits

/-- The companions of a tensor: its block scales, its scale, and what its activations are divided by. -/
structure Nvfp4AuxView where
  blockScales : Bytes
  scale2 : UInt32
  inputScaleInv : Option UInt32

def nvfp4Aux (weights : MuseWeights) (name : Text) (shape : List UInt64) : Except MuseConfigError Nvfp4AuxView := do
  let nIn := dimension shape 0 0
  let nOut := dimension shape 1 0
  reject (shape.length != 2 || nIn == 0 || nOut == 0 || nIn % 16 != 0) (.geometry ("NVFP4 tensor ".toList ++ name ++
    " must be a nonempty 2-D matrix with n_in divisible by 16".toList))
  let scaleName := name ++ ".nvfp4_scale".toList
  match weights.index.lookup scaleName with
  | none => .error (.missingTensor scaleName)
  | some scale => do
    let expected := [UInt64.ofNat (nIn / 16), UInt64.ofNat nOut]
    reject (scale.dtype != .f8_E4M3FN || scale.shape != expected) (.geometry ("NVFP4 scale tensor ".toList ++ scaleName ++
      s!" must be F8_E4M3FN {showShape expected}, got {showType scale.dtype} {showShape scale.shape}".toList))
    let scales := slice weights.mapped scale.start scale.len
    reject (scales.any fun byte => byte == 0x7f || byte == 0xff) (.geometry ("NVFP4 scale tensor ".toList ++ scaleName ++
      " contains E4M3FN NaN".toList))
    let scale2Name := name ++ ".nvfp4_scale2".toList
    match weights.index.lookup scale2Name with
    | none => .error (.missingTensor scale2Name)
    | some scale2 => do
      let scale2 ← scalar weights scale2Name scale2 "NVFP4 tensor scale "
      let inputName := name ++ ".nvfp4_input_scale_inv".toList
      match weights.index.lookup inputName with
      | none => .ok { blockScales := scales, scale2, inputScaleInv := none }
      | some input => do
        let bits ← scalar weights inputName input "NVFP4 activation scale "
        .ok { blockScales := scales, scale2, inputScaleInv := some bits }

def metaStr (file : GgufFile) (key : String) : Option Text :=
  match file.metadata.lookup key.toList with
  | some (.str text) => some text
  | _ => none

/-- Open the mapped bytes of a file. -/
def MuseWeights.open (mapped : Bytes) (file : GgufFile) : Except MuseConfigError MuseWeights := do
  let index ← file.tensors.foldlM (indexTensor mapped file.dataOffset) []
  let weights : MuseWeights := { mapped, index }
  let precision := (metaStr file "muser.activation_precision").getD "f16".toList
  reject (precision != "f16".toList && precision != "nvfp4".toList)
    (.geometry ("unsupported muser.activation_precision=".toList ++ precision))
  file.tensors.forM fun tensor => do
    if tensor.dtype = .nvfp4_E2M1 then
      let aux ← nvfp4Aux weights tensor.name tensor.shape
      reject ((precision == "nvfp4".toList) != aux.inputScaleInv.isSome) (.geometry ("NVFP4 tensor ".toList ++ tensor.name ++
        " does not match muser.activation_precision=".toList ++ precision))
  .ok weights

structure TensorView where
  raw : Bytes
  dtype : GgmlType
  nIn : ℕ
  nOut : ℕ
  nvfp4 : Option Nvfp4AuxView

/-- The companions of a tensor of a type that has them. -/
def companions (weights : MuseWeights) (name : Text) (entry : Entry) : Except MuseConfigError (Option Nvfp4AuxView) :=
  if entry.dtype = .nvfp4_E2M1 then (nvfp4Aux weights name entry.shape).map some else .ok none

def MuseWeights.view (weights : MuseWeights) (name : Text) : Except MuseConfigError TensorView :=
  match weights.index.lookup name with
  | none => .error (.missingTensor name)
  | some entry => do
    let nvfp4 ← companions weights name entry
    .ok { raw := slice weights.mapped entry.start entry.len, dtype := entry.dtype, nIn := dimension entry.shape 0 1
          nOut := dimension entry.shape 1 1, nvfp4 }

/-! ## Rows -/

def TensorView.rowBytes (t : TensorView) : ℕ := t.nIn ⌈/⌉ t.dtype.blockElements * t.dtype.blockSize

/-- The bytes of a row, which have to lie inside of the tensor. -/
def TensorView.row (t : TensorView) (r : ℕ) : Option Bytes := cut t.raw (r * t.rowBytes) t.rowBytes

/-- What is done with tensors that have companions. -/
structure Nvfp4 (R : Type) where
  dequantNvfp4Row (packed scales : Bytes) (scale2 : UInt32) (out : List R) : List R
  dotNvfp4W4a4F32 (row scales : Bytes) (scale2 inputScaleInv : UInt32) (x : List R) : R
  dotNvfp4A16Q8F32 (row scales : Bytes) (scale2 : UInt32) (x : List R) : R

variable {R : Type} [CommRing R] (single : UInt32 → R) (nvfp4 : Nvfp4 R)

/-- Dequantize a block of a row over its elements of the output; the last may be cut short. -/
def dequantStep (t : TensorView) (r : ℕ) (scratch out : List R) (b : ℕ) : Option (List R × List R) := do
  let block ← cut t.raw (r * t.rowBytes + b * t.dtype.blockSize) t.dtype.blockSize
  let scratch ← dequantBlock single t.dtype block scratch
  let off := b * t.dtype.blockElements
  let n := min t.dtype.blockElements (t.nIn - off)
  let _ ← cut out off n
  some (scratch, splice out off (scratch.take n))

/-- Dequantize a row over an output of its length. -/
def dequantRow (t : TensorView) (r : ℕ) (out : List R) : Option (List R) :=
  if t.dtype = .nvfp4_E2M1 then do
    let aux ← t.nvfp4
    let packed ← cut t.raw (r * (t.nIn / 2)) (t.nIn / 2)
    let scales ← cut aux.blockScales (r * (t.nIn / 16)) (t.nIn / 16)
    some (nvfp4.dequantNvfp4Row packed scales aux.scale2 out)
  else do
    let (_, out) ← (List.range (t.nIn ⌈/⌉ t.dtype.blockElements)).foldlM (fun state b =>
      dequantStep single t r state.1 state.2 b)
      (List.replicate (max t.dtype.blockElements 1) 0, out)
    some out

/-- How the products of Q4_K and Q6_K are computed. -/
inductive Form
  | scalar
  | llama
  | neon
deriving DecidableEq

def dotQ4KF32 : Form → Bytes → List R → ℕ → Option R
  | .scalar => dotQ4KF32Scalar single
  | .llama => dotQ4KF32Llama single
  | .neon => dotQ4KF32Neon single

def dotQ6KF32 : Form → Bytes → List R → ℕ → Option R
  | .scalar => dotQ6KF32Scalar single
  | .llama => dotQ6KF32Llama single
  | .neon => dotQ6KF32Neon single

/-- Dequantize a block of a row, and add the products of its elements. -/
def streamStep (dtype : GgmlType) (row : Bytes) (x : List R) (n : ℕ) (scratch : List R) (acc : R)
    (b : ℕ) : Option (List R × R) := do
  let block ← cut row (b * dtype.blockSize) dtype.blockSize
  let scratch ← dequantBlock single dtype block scratch
  let off := b * dtype.blockElements
  let k := min dtype.blockElements (n - off)
  let _ ← cut x off k
  some (scratch, (List.range k).foldl (fun acc i => acc + scratch.getD i 0 * x.getD (off + i) 0) acc)

def dotStreamed (dtype : GgmlType) (row : Bytes) (x : List R) (n : ℕ) : Option R := do
  let (_, acc) ← (List.range (n ⌈/⌉ dtype.blockElements)).foldlM (fun state b =>
    streamStep single dtype row x n state.1 state.2 b)
    (List.replicate dtype.blockElements (0 : R), (0 : R))
  some acc

/-- The product of a row, given its bytes, with a vector. -/
def dotRow (form : Form) (t : TensorView) (r : ℕ) (row : Bytes) (x : List R) (n : ℕ) : Option R :=
  match t.dtype with
  | .nvfp4_E2M1 => do
    let aux ← t.nvfp4
    let scales ← cut aux.blockScales (r * (n / 16)) (n / 16)
    match aux.inputScaleInv with
    | some inputScaleInv => some (nvfp4.dotNvfp4W4a4F32 row scales aux.scale2 inputScaleInv x)
    | none => some (nvfp4.dotNvfp4A16Q8F32 row scales aux.scale2 x)
  | .q4_K => dotQ4KF32 single form row x n
  | .q5_K => dotQ5KF32 single row x n
  | .q6_K => dotQ6KF32 single form row x n
  | .q8_0 => dotQ8F32 single row x n
  | .q4_0 => dotQ4_0F32 single row x n
  | .f32 => overBlocks 4 1 (fun acc block x => acc + single (u32At block 0) * x.getD 0 0) row x n
  | .f16 => overBlocks 2 1 (fun acc block x => acc + halfAt single block 0 * x.getD 0 0) row x n
  | other => dotStreamed single other row x n

end Muser.Quant
