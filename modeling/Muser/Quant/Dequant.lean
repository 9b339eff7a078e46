import Muser.Gguf.Types
import Muser.Lib.Endian
import Muser.Lib.Stores

/-! # Dequantizing a block

A block of quantized numbers is decoded into its stores, in the order of the loops. Arithmetic is exact, in any
commutative ring; what number the bits of single precision stand for is a parameter.
-/

namespace Muser.Quant

open Gguf (GgmlType)

/-! ## Half precision -/

/-- Shift a mantissa until its leading bit is in place, and count the shifts. -/
def renormalize : ℕ → UInt32 → UInt32 → UInt32 × UInt32
  | 0, m, e => (m, e)
  | shifts + 1, m, e => if m &&& 0x0400 = 0 then renormalize shifts (m <<< 1) (e + 1) else (m, e)

/-- The bits of single precision for those of half precision; a mantissa of ten bits takes ten shifts at most. -/
def f16ToF32 (h : UInt16) : UInt32 :=
  let sign := ((h >>> 15) &&& 1).toUInt32
  let exp := ((h >>> 10) &&& 0x1F).toUInt32
  let mant := (h &&& 0x03FF).toUInt32
  if exp = 0 then
    if mant = 0 then sign <<< 31
    else
      let (m, e) := renormalize 10 mant 0
      (sign <<< 31) ||| ((127 - 14 - e) <<< 23) ||| ((m &&& 0x03FF) <<< 13)
  else if exp = 31 then (sign <<< 31) ||| ((0xFF : UInt32) <<< 23) ||| (mant <<< 13)
  else (sign <<< 31) ||| ((exp + 127 - 15) <<< 23) ||| (mant <<< 13)

/-! ## Blocks -/

def byteAt (block : Bytes) (index : ℕ) : UInt8 := block.getD index 0

def u16At (block : Bytes) (index : ℕ) : UInt16 := UInt16.ofNat (fromLeBytes [byteAt block index, byteAt block (index + 1)])

def u32At (block : Bytes) (index : ℕ) : UInt32 :=
  UInt32.ofNat (fromLeBytes [byteAt block index, byteAt block (index + 1), byteAt block (index + 2),
    byteAt block (index + 3)])

def low (byte : UInt8) : UInt8 := byte &&& 0x0F

def high (byte : UInt8) : UInt8 := byte >>> 4

def signed (byte : UInt8) : ℤ := byte.toInt8.toInt

section Orders

variable {R : Type}

/-- The orders in which blocks are filled, two of them in groups. -/
private theorem filled_orders :
    ((List.range 16).flatMap fun i => [i, i + 16]).Perm (List.range 32) ∧
    ((List.range 4).flatMap fun group => (List.range 32).flatMap fun l => [64 * group + l, 64 * group + l + 32]).Perm
    (List.range 256) ∧
    ((List.range 2).flatMap fun group => (List.range 32).flatMap fun l =>
      (List.finRange 4).map fun (part : Fin 4) => 128 * group + l + 32 * (part : ℕ)).Perm (List.range 256) := by
  decide +kernel

theorem fills_halves {low high : ℕ → R} : Fills 32 ((List.range 16).flatMap fun i => [(i, low i), (i + 16, high i)]) := by
  rw [Fills, List.map_flatMap]
  exact filled_orders.1

/-- Two numbers from each byte, in four groups. -/
theorem fills_groups {low high : ℕ → ℕ → R} : Fills 256 ((List.range 4).flatMap fun group => (List.range 32).flatMap fun l =>
    [(64 * group + l, low group l), (64 * group + l + 32, high group l)]) := by
  simp only [Fills, List.map_flatMap]
  exact filled_orders.2.1

theorem fills_quarters {value : ℕ → ℕ → Fin 4 → R} :
    Fills 256 ((List.range 2).flatMap fun group => (List.range 32).flatMap fun l =>
    (List.finRange 4).map fun (part : Fin 4) => (128 * group + l + 32 * (part : ℕ), value group l part)) := by
  simp only [Fills, List.map_flatMap, List.map_map]
  exact filled_orders.2.2

theorem fills_one (value : R) : Fills 1 [(0, value)] := List.Perm.refl _

theorem fills_each (size : ℕ) (value : ℕ → R) : Fills size ((List.range size).map fun i => (i, value i)) := by
  rw [Fills, List.map_map]
  exact (List.map_id _).symm ▸ List.Perm.refl _

end Orders

variable {R : Type} [CommRing R] (single : UInt32 → R)

def halfAt (block : Bytes) (index : ℕ) : R := single (f16ToF32 (u16At block index))

def dequantQ4_0 (block : Bytes) : List (ℕ × R) :=
  let scale := halfAt single block 0
  (List.range 16).flatMap fun i =>
    let byte := byteAt block (2 + i)
    [(i, ((signed (low byte) - 8 : ℤ) : R) * scale), (i + 16, ((signed (high byte) - 8 : ℤ) : R) * scale)]

def dequantQ4_1 (block : Bytes) : List (ℕ × R) :=
  let d := halfAt single block 0
  let m := halfAt single block 2
  (List.range 16).flatMap fun i =>
    [(i, d * ((low (byteAt block (4 + i))).toNat : R) + m), (i + 16, d * ((high (byteAt block (4 + i))).toNat : R) + m)]

/-- A bit of the plane of high bits. -/
def highBit (qh : UInt32) (index : ℕ) : UInt32 := (qh >>> UInt32.ofNat index) &&& 1

def dequantQ5_0 (block : Bytes) : List (ℕ × R) :=
  let scale := halfAt single block 0
  let qh := u32At block 2
  (List.range 16).flatMap fun j =>
    let byte := byteAt block (6 + j)
    [(j, ((signed ((highBit qh j <<< 4).toUInt8 ||| low byte) - 16 : ℤ) : R) * scale),
      (j + 16, ((signed ((highBit qh (j + 16) <<< 4).toUInt8 ||| high byte) - 16 : ℤ) : R) * scale)]

def dequantQ5_1 (block : Bytes) : List (ℕ × R) :=
  let d := halfAt single block 0
  let m := halfAt single block 2
  let qh := u32At block 4
  (List.range 16).flatMap fun j =>
    let byte := byteAt block (8 + j)
    [(j, d * (((low byte).toUInt32 ||| (highBit qh j <<< 4)).toNat : R) + m),
      (j + 16, d * (((high byte).toUInt32 ||| (highBit qh (j + 16) <<< 4)).toNat : R) + m)]

def dequantQ8_0 (block : Bytes) : List (ℕ × R) :=
  let scale := halfAt single block 0
  (List.range 32).map fun i => (i, (signed (byteAt block (2 + i)) : R) * scale)

/-! ## Blocks of 256 numbers -/

/-- The scale and the minimum of a part of a block, of six bits each. -/
def getScaleMinK4 (block : Bytes) (j : ℕ) : UInt8 × UInt8 :=
  let scales index := byteAt block (4 + index)
  if j < 4 then (scales j &&& 0x3F, scales (j + 4) &&& 0x3F)
  else ((scales (j + 4) &&& 0x0F : UInt8) ||| ((scales (j - 4) >>> 6) <<< 4),
    (scales (j + 4) >>> 4) ||| ((scales j >>> 6) <<< 4))

/-- The same, as numbers. -/
def scaleMin (block : Bytes) (j : ℕ) : R × R :=
  let (sc, m) := getScaleMinK4 block j
  (halfAt single block 0 * (sc.toNat : R), halfAt single block 2 * (m.toNat : R))

def dequantQ4K (block : Bytes) : List (ℕ × R) :=
  (List.range 4).flatMap fun group =>
    let (d1, m1) := scaleMin single block (2 * group)
    let (d2, m2) := scaleMin single block (2 * group + 1)
    (List.range 32).flatMap fun l =>
      let q := byteAt block (16 + (32 * group + l))
      [(64 * group + l, d1 * ((low q).toNat : R) - m1), (64 * group + l + 32, d2 * ((high q).toNat : R) - m2)]

/-- The low number of five bits, with its high bit from the plane. -/
def lowQ5K (block : Bytes) (group l : ℕ) : ℕ :=
  (low (byteAt block (48 + (32 * group + l)))).toNat +
    if byteAt block (16 + l) &&& ((1 : UInt8) <<< UInt8.ofNat (2 * group)) ≠ 0 then 16 else 0

def highQ5K (block : Bytes) (group l : ℕ) : ℕ :=
  (high (byteAt block (48 + (32 * group + l)))).toNat +
    if byteAt block (16 + l) &&& ((2 : UInt8) <<< UInt8.ofNat (2 * group)) ≠ 0 then 16 else 0

def dequantQ5K (block : Bytes) : List (ℕ × R) :=
  (List.range 4).flatMap fun group =>
    let (d1, m1) := scaleMin single block (2 * group)
    let (d2, m2) := scaleMin single block (2 * group + 1)
    (List.range 32).flatMap fun l =>
      [(64 * group + l, d1 * (lowQ5K block group l : R) - m1), (64 * group + l + 32, d2 * (highQ5K block group l : R) - m2)]

/-- One of the four numbers of six bits that two low bytes and a high byte hold. -/
def quantQ6K (block : Bytes) (group l : ℕ) (part : Fin 4) : ℤ :=
  let ql0 := (byteAt block (64 * group + l)).toUInt32
  let ql32 := (byteAt block (64 * group + l + 32)).toUInt32
  let qhl := (byteAt block (128 + (32 * group + l))).toUInt32
  match part with
  | 0 => (((ql0 &&& 0xF : UInt32) ||| ((qhl &&& 3 : UInt32) <<< 4)).toNat : ℤ) - 32
  | 1 => (((ql32 &&& 0xF : UInt32) ||| (((qhl >>> 2) &&& 3 : UInt32) <<< 4)).toNat : ℤ) - 32
  | 2 => (((ql0 >>> 4) ||| (((qhl >>> 4) &&& 3 : UInt32) <<< 4)).toNat : ℤ) - 32
  | 3 => (((ql32 >>> 4) ||| (((qhl >>> 6) &&& 3 : UInt32) <<< 4)).toNat : ℤ) - 32

/-- The scale of sixteen of these numbers. -/
def scaleQ6K (block : Bytes) (group half : ℕ) (part : Fin 4) : ℤ :=
    signed (byteAt block (192 + (8 * group + half + 2 * (part : ℕ))))

def dequantQ6K (block : Bytes) : List (ℕ × R) :=
  let d := halfAt single block 208
  (List.range 2).flatMap fun group => (List.range 32).flatMap fun l => (List.finRange 4).map fun (part : Fin 4) =>
    (128 * group + l + 32 * (part : ℕ), d * (scaleQ6K block group (l / 16) part : R) * (quantQ6K block group l part : R))

/-! ## Any type -/

/-- The stores of a block, for a type that can be dequantized without companions. -/
def blockStores (dtype : GgmlType) (block : Bytes) : Option (List (ℕ × R)) :=
  match dtype with
  | .f32 => some [(0, single (u32At block 0))]
  | .f16 => some [(0, halfAt single block 0)]
  | .bf16 => some [(0, single ((u16At block 0).toUInt32 <<< 16))]
  | .nvfp4_E2M1 | .f8_E4M3FN => none
  | .q4_0 => some (dequantQ4_0 single block)
  | .q4_1 => some (dequantQ4_1 single block)
  | .q5_0 => some (dequantQ5_0 single block)
  | .q5_1 => some (dequantQ5_1 single block)
  | .q8_0 => some (dequantQ8_0 single block)
  | .q4_K => some (dequantQ4K single block)
  | .q5_K => some (dequantQ5K single block)
  | .q6_K => some (dequantQ6K single block)
  | _ => none

/-- Dequantize a block into a buffer; other types panic. -/
def dequantBlock (dtype : GgmlType) (block : Bytes) (out : List R) : Option (List R) :=
  (blockStores single dtype block).map (storeAll out)

/-! ## Each block is filled -/

/-- The types that can be dequantized without companions. -/
def Dequantized : GgmlType → Prop
  | .f32 | .f16 | .bf16 | .q4_0 | .q4_1 | .q5_0 | .q5_1 | .q8_0 | .q4_K | .q5_K | .q6_K => True
  | _ => False

theorem blockStores_isSome_iff (dtype : GgmlType) (block : Bytes) : (blockStores single dtype block).isSome ↔
    Dequantized dtype := by
  cases dtype <;> simp [blockStores, Dequantized]

/-- The stores of a block fill it. -/
theorem fills_blockStores {dtype : GgmlType} {block : Bytes} {stores : List (ℕ × R)}
    (are : blockStores single dtype block = some stores) :
    Fills dtype.blockElements stores := by
  cases dtype <;> simp only [blockStores, Option.some.injEq, reduceCtorEq] at are <;> subst are
  case f32 | f16 | bf16 => exact fills_one _
  case q4_0 | q4_1 | q5_0 | q5_1 => exact fills_halves
  case q8_0 => exact fills_each 32 _
  case q4_K | q5_K => exact fills_groups
  case q6_K => exact fills_quarters

end Muser.Quant
