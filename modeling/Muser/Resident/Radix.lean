import Muser.Lib.Radix
import Muser.Resident.Chunks

/-! # The resident radix tree

Entries are stored under the words of their identity followed by their tokens, in a compressed radix
tree. A lookup walks down the tokens of the query and keeps the deepest entry that may serve it; an
insertion past the capacity evicts the entries that were reached the longest time ago.
-/

namespace Muser.Resident

open Muser.Engine Muser.Radix

structure IdentityDigest where
  bytes : Bytes
  length_bytes : bytes.length = 32
deriving DecidableEq

def u32FromLeBytes (first second third fourth : UInt8) : UInt32 :=
  UInt32.ofNat (first.toNat + 256 * second.toNat + 65536 * third.toNat + 16777216 * fourth.toNat)

/-- The little-endian words of whole groups of four bytes. -/
def leWords : Bytes → List UInt32
  | first :: second :: third :: fourth :: rest => u32FromLeBytes first second third fourth :: leWords rest
  | _ => []

def identityKeyWords : ℕ := 9

/-- The presence tag and the digest words, or nine zero words without an identity. -/
def identityKey : Option IdentityDigest → List UInt32
  | some digest => 1 :: leWords digest.bytes
  | none => List.replicate identityKeyWords 0

def scopedKey (identity : Option IdentityDigest) (tokens : List Token) : List UInt32 :=
  identityKey identity ++ tokens

structure ResidentEntry where
  id : ℕ
  snapshot : ResidentSnapshot
  ancestorReusable : Bool
  lastAccess : ℕ
deriving DecidableEq

abbrev RadixNode := Node UInt32 ResidentEntry

abbrev RadixForest := Forest UInt32 ResidentEntry

structure ResidentHit where
  cut : ℕ
  exact : Bool
  snapshot : ResidentSnapshot
deriving DecidableEq

/-- The step of a lookup at one node: the entry there replaces the best so far if it may serve. -/
def serveEntry (now maxDepth : ℕ) (remaining : List UInt32) (depth : ℕ) (entry : Option ResidentEntry)
    (best : Option ResidentHit) : Option ResidentEntry × Option ResidentHit :=
  match entry with
  | none => (none, best)
  | some entry =>
    if depth ≤ maxDepth ∧ (remaining.isEmpty || entry.ancestorReusable) then
      (some { entry with lastAccess := now },
        some { cut := depth - identityKeyWords, exact := remaining.isEmpty, snapshot := entry.snapshot })
    else (some entry, best)

mutual

def longestMatch (now maxDepth : ℕ) : RadixNode → List UInt32 → ℕ → Option ResidentHit →
    RadixNode × Option ResidentHit
  | .mk edge entry children, remaining, depth, best =>
    let served := serveEntry now maxDepth remaining depth entry best
    if maxDepth ≤ depth then (.mk edge served.1 children, served.2)
    else match remaining with
      | [] => (.mk edge served.1 children, served.2)
      | first :: rest =>
        let under := longestMatchUnder now maxDepth children first rest depth served.2
        (.mk edge served.1 under.1, under.2)

/-- The walk below the child that the next token selects. -/
def longestMatchUnder (now maxDepth : ℕ) : RadixForest → UInt32 → List UInt32 → ℕ → Option ResidentHit →
    RadixForest × Option ResidentHit
  | .nil, _, _, _, best => (.nil, best)
  | .cons token child others, first, rest, depth, best =>
    if token = first then
      let shared := sharedPrefixLen child.edge (first :: rest)
      if shared = child.edge.length then
        let under := longestMatch now maxDepth child ((first :: rest).drop shared) (depth + shared) best
        (.cons token under.1 others, under.2)
      else (.cons token child others, best)
    else
      let under := longestMatchUnder now maxDepth others first rest depth best
      (.cons token child under.1, under.2)

end

/-- The id and access time of the oldest entry so far. -/
def olderOf (best : Option (ℕ × ℕ)) (entry : ResidentEntry) : Option (ℕ × ℕ) :=
  match best with
  | none => some (entry.id, entry.lastAccess)
  | some (id, age) => if entry.lastAccess < age then some (entry.id, entry.lastAccess) else some (id, age)

/-- The entry with the smallest access time, the first visited among equals. -/
def findLru (root : RadixNode) : Option ℕ := (root.entries.foldl olderOf none).map Prod.fst

def removeEntry (root : RadixNode) (id : ℕ) : RadixNode := (root.remove fun entry => entry.id == id).1

def findId (root : RadixNode) (id : ℕ) : Bool := root.entries.any fun entry => entry.id == id

def entryLogitsBytes (root : RadixNode) : ℕ :=
  root.entries.foldl
    (fun total entry =>
      saturatingAdd total (entry.snapshot.lastLogits.elim 0 fun values => saturatingMul values.length 4)) 0

structure ResidentRadix where
  root : RadixNode
  chunks : ChunkPool
  capacityBytes : ℕ
  clock : ℕ
  nextId : ℕ
  queries : ℕ
  hits : ℕ
  evictions : ℕ

namespace ResidentRadix

def new (capacityBytes : ℕ) : Except ResidentError ResidentRadix :=
  if capacityBytes = 0 then .error .zeroCapacity
  else .ok
    { root := .empty
      chunks := ⟨[]⟩
      capacityBytes := capacityBytes
      clock := 0
      nextId := 1
      queries := 0
      hits := 0
      evictions := 0 }

/-- The chunks that are alive: those of the entries, and those of the snapshots callers still hold. -/
def liveChunks (root : RadixNode) (held : List ResidentSnapshot) : List Bytes :=
  (root.entries.map ResidentEntry.snapshot ++ held).flatMap ResidentSnapshot.chunks

def residentBytes (radix : ResidentRadix) (held : List ResidentSnapshot) : ℕ :=
  saturatingAdd (radix.chunks.liveBytes (liveChunks radix.root held)).2 (entryLogitsBytes radix.root)

/-- One turn of the eviction loop: `none` where the loop ends. -/
def evictOne (radix : ResidentRadix) (held : List ResidentSnapshot) : Option ResidentRadix :=
  if radix.residentBytes held ≤ radix.capacityBytes then none
  else (findLru radix.root).map fun evicted =>
    { radix with
      root := (removeEntry radix.root evicted).prune
      chunks := (radix.chunks.liveBytes (liveChunks radix.root held)).1
      evictions := saturatingAdd radix.evictions 1 }

/-- The eviction loop. Every turn takes an entry, so as many turns as there are entries end it. -/
def evict (held : List ResidentSnapshot) : ℕ → ResidentRadix → ResidentRadix
  | 0, radix => radix
  | turns + 1, radix =>
    match radix.evictOne held with
    | none => radix
    | some next => evict held turns next

def logitsInvalid (values : List Logit) : Bool := values.isEmpty || values.any fun value => !value.isFinite

/-- Any order in which hash maps may hand out the children of a tree. -/
structure Layout where
  arrange : RadixNode → RadixNode
  reorders : ∀ root : RadixNode, root.Reorders (arrange root)

/-- The tree right after `insert_recursive`. -/
def place (radix : ResidentRadix) (layout : Layout) (key : List UInt32) (entry : ResidentEntry) (chunks : ChunkPool) :
    ResidentRadix :=
  { radix with
    root := layout.arrange (radix.root.insert key entry)
    chunks := chunks
    clock := saturatingAdd radix.clock 1
    nextId := saturatingAdd radix.nextId 1 }

/-- Insert an exact completed cut under `identity`; `layout` is the order the hash maps end up in and
`held` are the snapshots that callers own meanwhile. -/
def insertWithLogits (sha256 : Bytes → Bytes) (layout : Layout) (held : List ResidentSnapshot) (radix : ResidentRadix)
    (identity : Option IdentityDigest) (snapshot : SessionCacheSnapshot) (lastLogits : Option (List Logit)) :
    Except ResidentError Bool × ResidentRadix :=
  match snapshot.validate with
  | .error message => (.error (.invalidSnapshot message), radix)
  | .ok () =>
    if snapshot.tokens.length ≠ snapshot.position then (.error .tokenMismatch, radix)
    else if lastLogits.any logitsInvalid then (.error .invalidLogits, radix)
    else match chunkSnapshot sha256 (liveChunks radix.root held) radix.chunks snapshot lastLogits with
      | .error failure => (.error failure, radix)
      | .ok (chunks, resident) =>
        let entry : ResidentEntry :=
          { id := radix.nextId
            snapshot := resident
            ancestorReusable := snapshot.position % residentCutTokens == 0
            lastAccess := saturatingAdd radix.clock 1 }
        let inserted := radix.place layout (scopedKey identity snapshot.tokens) entry chunks
        let evicted := evict held inserted.root.entries.length inserted
        (.ok (findId evicted.root radix.nextId), evicted)

/-- The deepest hit under `identity` whose cut does not exceed `maxCut`. The depth cap saturates in
the source; no slice is long enough for that to show. -/
def lookupCapped (radix : ResidentRadix) (identity : Option IdentityDigest) (tokens : List Token) (maxCut : ℕ) :
    Option ResidentHit × ResidentRadix :=
  let clock := saturatingAdd radix.clock 1
  let walked := longestMatch clock (identityKeyWords + maxCut) radix.root (scopedKey identity tokens) 0 none
  (walked.2,
    { radix with
      root := walked.1
      clock := clock
      queries := saturatingAdd radix.queries 1
      hits := if walked.2.isSome then saturatingAdd radix.hits 1 else radix.hits })

def lookup (radix : ResidentRadix) (identity : Option IdentityDigest) (tokens : List Token) :
    Option ResidentHit × ResidentRadix :=
  radix.lookupCapped identity tokens (usizeBound - 1)

end ResidentRadix

end Muser.Resident
