import Mathlib.Data.List.Basic

/-! # Byte strings

What digests, signatures and caches hold, and the bytes of a text.
-/

namespace Muser

abbrev Bytes := List UInt8

/-- The UTF-8 bytes of a text. -/
def utf8 (text : String) : Bytes := text.toUTF8.data.toList

theorem utf8_injective : Function.Injective utf8 := by
  intro left right same
  have bytes : left.toUTF8 = right.toUTF8 := ByteArray.ext (Array.toList_inj.mp same)
  exact String.toByteArray_inj.mp bytes

end Muser
