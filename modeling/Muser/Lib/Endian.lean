import Muser.Lib.Bytes
import Mathlib.Tactic.Ring
import Mathlib.Data.List.Induction

/-! # Little-endian numbers

A number in a fixed number of bytes, least significant first, and back.
-/

namespace Muser

/-- The low `size` bytes of a number. -/
def toLeBytes : ℕ → ℕ → Bytes
  | 0, _ => []
  | size + 1, value => UInt8.ofNat value :: toLeBytes size (value / 256)

def fromLeBytes : Bytes → ℕ
  | [] => 0
  | byte :: bytes => byte.toNat + 256 * fromLeBytes bytes

@[simp] theorem length_toLeBytes (size value : ℕ) : (toLeBytes size value).length = size := by
  induction size generalizing value with
  | zero => rfl
  | succ size ih => rw [toLeBytes, List.length_cons, ih]

theorem fromLeBytes_toLeBytes {size value : ℕ} (small : value < 256 ^ size) :
    fromLeBytes (toLeBytes size value) = value := by
  induction size generalizing value with
  | zero =>
    rw [Nat.pow_zero, Nat.lt_one_iff] at small
    rw [small]
    rfl
  | succ size ih =>
    rw [Nat.pow_succ'] at small
    have high : value / 256 < 256 ^ size := Nat.div_lt_of_lt_mul small
    have low : (UInt8.ofNat value).toNat = value % 256 := UInt8.toNat_ofNat'
    rw [toLeBytes, fromLeBytes, ih high, low]
    exact Nat.mod_add_div value 256

end Muser

/-! ## Big-endian numbers

A number in a fixed number of bytes, most significant first, and back.
-/

namespace Muser

/-- The low `size` bytes of a number. -/
def bigEndian : ℕ → ℕ → Bytes
  | 0, _ => []
  | size + 1, value => bigEndian size (value / 256) ++ [UInt8.ofNat value]

def fromBigEndian (bytes : Bytes) : ℕ := bytes.foldl (fun value byte => value * 256 + byte.toNat) 0

@[simp] theorem length_bigEndian (size value : ℕ) : (bigEndian size value).length = size := by
  induction size generalizing value with
  | zero => rfl
  | succ size ih => rw [bigEndian, List.length_append, ih, List.length_singleton]

theorem fromBigEndian_concat (bytes : Bytes) (byte : UInt8) :
    fromBigEndian (bytes ++ [byte]) = fromBigEndian bytes * 256 + byte.toNat := by
  rw [fromBigEndian, List.foldl_append, List.foldl_cons, List.foldl_nil, fromBigEndian]

theorem fromBigEndian_bigEndian {size value : ℕ} (small : value < 256 ^ size) :
    fromBigEndian (bigEndian size value) = value := by
  induction size generalizing value with
  | zero =>
    rw [Nat.pow_zero] at small
    obtain rfl : value = 0 := by omega
    rfl
  | succ size ih =>
    rw [Nat.pow_succ] at small
    have high : value / 256 < 256 ^ size := Nat.div_lt_of_lt_mul (by omega)
    rw [bigEndian, fromBigEndian_concat, ih high, UInt8.toNat_ofNat']
    exact Nat.div_add_mod' value 256

/-- A number that does not fit loses its high bytes. -/
theorem fromBigEndian_bigEndian_mod (size value : ℕ) : fromBigEndian (bigEndian size value) = value % 256 ^ size := by
  induction size generalizing value with
  | zero => rw [Nat.pow_zero, Nat.mod_one]; rfl
  | succ size ih =>
    have low : (UInt8.ofNat value).toNat = value % 256 := UInt8.toNat_ofNat'
    have cut : value % (256 * 256 ^ size) = value % 256 + 256 * (value / 256 % 256 ^ size) := Nat.mod_mul
    rw [bigEndian, fromBigEndian_concat, ih, low, Nat.pow_succ', cut, Nat.add_comm, Nat.mul_comm]

theorem bigEndian_fromBigEndian (bytes : Bytes) : bigEndian bytes.length (fromBigEndian bytes) = bytes := by
  induction bytes using List.reverseRecOn with
  | nil => rfl
  | append_singleton bytes byte ih =>
    have small : byte.toNat < 256 := byte.toNat_lt
    have high : (fromBigEndian bytes * 256 + byte.toNat) / 256 = fromBigEndian bytes := by omega
    have low : UInt8.ofNat (fromBigEndian bytes * 256 + byte.toNat) = byte := by
      rw [← UInt8.toNat_inj, UInt8.toNat_ofNat']
      omega
    rw [List.length_append, List.length_singleton, fromBigEndian_concat, bigEndian, high, low, ih]

end Muser
