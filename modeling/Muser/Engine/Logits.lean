import Muser.Engine.Cache
import Mathlib.Tactic.Common

/-! # Distributions

A distribution is a row of `f32` values, one for each token of the vocabulary, kept by their bits.
-/

namespace Muser.Engine

/-- An `f32` by its bits. -/
abbrev Single := UInt32

namespace Single

def isFinite (value : Single) : Bool := (value >>> 23) &&& 0xff != 0xff

def isNan (value : Single) : Bool := !value.isFinite && value &&& 0x7fffff != 0

/-- The bits of a number as an integer of the same order; both zeros are zero. -/
def key (value : Single) : ℤ :=
  if value >>> 31 = 0 then (value &&& 0x7fffffff).toNat else -((value &&& 0x7fffffff).toNat : ℤ)

/-- Ordered comparison: never with a NaN. -/
def gt (left right : Single) : Bool := !left.isNan && !right.isNan && decide (right.key < left.key)

end Single

/-- Reserved outside the vocabulary: it only names the position of a projected image row. -/
def embeddingPositionWitness : Token := 2147483647

end Muser.Engine
