import Muser.Resident.Contents

/-! # Histories of the resident tier

A history is any sequence of insertions and lookups on a new tree. Its log holds one list of changes
for each call: the cut an accepted insertion stores, followed by the cuts it evicts.
-/

namespace Muser.Resident

open Muser.Engine Muser.Radix

/-- `insert` is an insertion without logits, `lookup` a lookup under the largest cap. -/
inductive Call where
  | insertWithLogits (layout : ResidentRadix.Layout) (held : List ResidentSnapshot) (identity : Option IdentityDigest)
      (snapshot : SessionCacheSnapshot) (lastLogits : Option (List Logit))
  | lookupCapped (identity : Option IdentityDigest) (tokens : List Token) (maxCut : ℕ)

namespace Call

variable {radix : ResidentRadix} {contents : Contents}

end Call

open Call

/-- The cut after one token, every plane of two zero bytes. -/
def oneTokenCut : SessionCacheSnapshot where
  position := 1
  tokens := [7]
  elementsPerToken := 1
  layers := (List.range museLayerCount).map fun layer =>
    { layer := UInt32.ofNat layer
      logicalStart := 0
      logicalCount := 1
      encoding := .f16Le
      key := [0, 0]
      value := [0, 0] }

/-- SHA-256 on the two zero bytes, the one chunk of `oneTokenCut`. -/
def sha256OfZeros : Bytes → Bytes := fun _ =>
  [0x96, 0xa2, 0x96, 0xd2, 0x24, 0xf2, 0x85, 0xc6, 0x7b, 0xee, 0x93, 0xc3, 0x0f, 0x8a, 0x30, 0x91,
    0x57, 0xf0, 0xda, 0xa3, 0x5d, 0xc5, 0xb8, 0x7e, 0x41, 0x0b, 0x78, 0x63, 0x0a, 0x09, 0xcf, 0xc7]

def oneTokenRadix : ResidentRadix where
  root := .empty
  chunks := ⟨[]⟩
  capacityBytes := 1024
  clock := 0
  nextId := 1
  queries := 0
  hits := 0
  evictions := 0

end Muser.Resident
