import Muser.Engine.Cache
import Muser.Lib.Rows

/-! # Resident snapshots

A resident entry owns a cut as content-interned chunks of 256 rows. Interning changes which
allocation a chunk shares and never its bytes, so putting a resident snapshot together again gives
the snapshot it was cut from.
-/

namespace Muser.Resident

open Muser.Engine

def residentCutTokens : ℕ := 256

inductive ResidentError where
  | invalidSnapshot (message : String)
  | zeroCapacity
  | tokenMismatch
  | sizeOverflow
  | invalidLogits
deriving DecidableEq

/-- An `f32` by its bits. -/
abbrev Logit := UInt32

/-- Neither an infinity nor a NaN: the exponent is not all ones. -/
def Logit.isFinite (value : Logit) : Bool := (value >>> 23) &&& 0xff != 0xff

structure ChunkedPlane where
  layer : UInt32
  logicalStart : ℕ
  logicalCount : ℕ
  encoding : PlaneEncoding
  key : List Bytes
  value : List Bytes
deriving DecidableEq

structure ResidentSnapshot where
  position : ℕ
  tokens : List Token
  elementsPerToken : UInt32
  layers : List ChunkedPlane
  lastLogits : Option (List Logit)
deriving DecidableEq

/-- Every chunk that a snapshot keeps alive. -/
def ResidentSnapshot.chunks (snapshot : ResidentSnapshot) : List Bytes :=
  snapshot.layers.flatMap fun plane => plane.key ++ plane.value

def concatenate (chunks : List Bytes) : Bytes := chunks.flatten

def ChunkedPlane.materialize (plane : ChunkedPlane) : CachePlaneSnapshot where
  layer := plane.layer
  logicalStart := plane.logicalStart
  logicalCount := plane.logicalCount
  encoding := plane.encoding
  key := concatenate plane.key
  value := concatenate plane.value

def ResidentSnapshot.materialize (resident : ResidentSnapshot) : Except ResidentError SessionCacheSnapshot :=
  let snapshot : SessionCacheSnapshot :=
    { position := resident.position
      tokens := resident.tokens
      elementsPerToken := resident.elementsPerToken
      layers := resident.layers.map ChunkedPlane.materialize }
  match snapshot.validate with
  | .error message => .error (.invalidSnapshot message)
  | .ok () => .ok snapshot

/-- Weak references by the digest of their chunk. Interning makes one allocation per content, so a
reference is named by the bytes it points to. -/
structure ChunkPool where
  byDigest : List (Bytes × List Bytes)
deriving DecidableEq

namespace ChunkPool

def candidates (pool : ChunkPool) (digest : Bytes) : List Bytes := (pool.byDigest.lookup digest).getD []

def store (pool : ChunkPool) (digest : Bytes) (candidates : List Bytes) : ChunkPool :=
  ⟨(digest, candidates) :: pool.byDigest.filter fun bucket => bucket.1 != digest⟩

/-- The chunk with these bytes: the allocation that is still alive, or a new one. `live` lists the
chunks that some snapshot owns. -/
def intern (sha256 : Bytes → Bytes) (live : List Bytes) (pool : ChunkPool) (bytes : Bytes) : ChunkPool × Bytes :=
  let digest := sha256 bytes
  let candidates := (pool.candidates digest).filter live.contains
  match candidates.find? (· == bytes) with
  | some existing => (pool.store digest candidates, existing)
  | none => (pool.store digest (candidates ++ [bytes]), bytes)

theorem intern_snd (sha256 : Bytes → Bytes) (live : List Bytes) (pool : ChunkPool) (bytes : Bytes) :
    (pool.intern sha256 live bytes).2 = bytes := by
  rw [intern]
  split
  · next existing found => simpa using List.find?_some found
  · rfl

/-- Intern one slice after another; each new chunk is alive for the next. -/
def internAll (sha256 : Bytes → Bytes) : List Bytes → ChunkPool → List Bytes → ChunkPool × List Bytes
  | _, pool, [] => (pool, [])
  | live, pool, slice :: slices =>
    let interned := pool.intern sha256 live slice
    let rest := internAll sha256 (interned.2 :: live) interned.1 slices
    (rest.1, interned.2 :: rest.2)

theorem internAll_snd (sha256 : Bytes → Bytes) (live : List Bytes) (pool : ChunkPool) (slices : List Bytes) :
    (pool.internAll sha256 live slices).2 = slices := by
  induction slices generalizing live pool with
  | nil => rfl
  | cons slice slices ih =>
    rw [internAll]
    dsimp only
    rw [ih, intern_snd]

/-- Forget the dead references and add up the rest. -/
def liveBytes (live : List Bytes) (pool : ChunkPool) : ChunkPool × ℕ :=
  let retained := (pool.byDigest.map fun bucket => (bucket.1, bucket.2.filter live.contains)).filter
    fun bucket => !bucket.2.isEmpty
  (⟨retained⟩, (retained.flatMap Prod.snd).foldl (fun bytes chunk => saturatingAdd bytes chunk.length) 0)

end ChunkPool

/-- The consecutive pieces of a slice, all but the last of one size. -/
def slices (size : ℕ) (bytes : Bytes) : List Bytes :=
  (List.range ((bytes.length + size - 1) / size)).map fun index => slice bytes (index * size) size

theorem concatenate_slices {size : ℕ} (positive : 0 < size) (bytes : Bytes) :
    concatenate (slices size bytes) = bytes := by
  rw [concatenate, slices, flatten_slices]
  apply List.take_of_length_le
  have enough := Nat.lt_div_mul_add (a := bytes.length + size - 1) positive
  omega

/-- Cut one layer; `live` grows by the chunks made. -/
def chunkPlane (sha256 : Bytes → Bytes) (elements : UInt32) (live : List Bytes) (pool : ChunkPool)
    (plane : CachePlaneSnapshot) : Except ResidentError (ChunkPool × ChunkedPlane) := do
  let rowBytes ← (checkedMul elements.toNat plane.encoding.widthBytes).elim (.error .sizeOverflow) .ok
  let chunkBytes ← (checkedMul rowBytes residentCutTokens).elim (.error .sizeOverflow) .ok
  let keys := pool.internAll sha256 live (slices chunkBytes plane.key)
  let values := keys.1.internAll sha256 (keys.2 ++ live) (slices chunkBytes plane.value)
  .ok (values.1,
    { layer := plane.layer
      logicalStart := plane.logicalStart
      logicalCount := plane.logicalCount
      encoding := plane.encoding
      key := keys.2
      value := values.2 })

def chunkLayers (sha256 : Bytes → Bytes) (elements : UInt32) : List Bytes → ChunkPool → List CachePlaneSnapshot →
    Except ResidentError (ChunkPool × List ChunkedPlane)
  | _, pool, [] => .ok (pool, [])
  | live, pool, plane :: planes => do
    let first ← chunkPlane sha256 elements live pool plane
    let rest ← chunkLayers sha256 elements (first.2.key ++ first.2.value ++ live) first.1 planes
    .ok (rest.1, first.2 :: rest.2)

def chunkSnapshot (sha256 : Bytes → Bytes) (live : List Bytes) (pool : ChunkPool) (snapshot : SessionCacheSnapshot)
    (lastLogits : Option (List Logit)) : Except ResidentError (ChunkPool × ResidentSnapshot) := do
  let layers ← chunkLayers sha256 snapshot.elementsPerToken live pool snapshot.layers
  .ok (layers.1,
    { position := snapshot.position
      tokens := snapshot.tokens
      elementsPerToken := snapshot.elementsPerToken
      layers := layers.2
      lastLogits := lastLogits })

theorem checkedMul_of_lt {left right : ℕ} (fits : left * right < usizeBound) :
    checkedMul left right = some (left * right) := if_pos fits

variable {elements : UInt32} {snapshot : SessionCacheSnapshot}

/-- A row of a `u32` width never overflows, and its chunks give the plane back. -/
theorem chunkPlane_eq_ok (sha256 : Bytes → Bytes) (wide : elements ≠ 0) (live : List Bytes)
    (pool : ChunkPool) (plane : CachePlaneSnapshot) : ∃ pool' chunked,
    chunkPlane sha256 elements live pool plane = .ok (pool', chunked) ∧ chunked.materialize = plane := by
  have bound : elements.toNat < 2 ^ 32 := elements.toNat_lt
  have positive : 0 < elements.toNat := by
    apply Nat.pos_of_ne_zero
    intro zero
    exact wide (UInt32.toNat_inj.mp zero)
  have width : 0 < plane.encoding.widthBytes ∧ plane.encoding.widthBytes ≤ 4 := by
    cases plane.encoding <;> simp [PlaneEncoding.widthBytes]
  have row : elements.toNat * plane.encoding.widthBytes ≤ 2 ^ 32 * 4 := Nat.mul_le_mul (Nat.le_of_lt bound) width.2
  have rowPositive : 0 < elements.toNat * plane.encoding.widthBytes := Nat.mul_pos positive width.1
  rw [chunkPlane, checkedMul_of_lt (by rw [usizeBound]; omega)]
  simp only [Option.elim, bind, Except.bind]
  rw [checkedMul_of_lt (by rw [usizeBound, residentCutTokens]; omega)]
  refine ⟨_, _, rfl, ?_⟩
  rw [ChunkedPlane.materialize, ChunkPool.internAll_snd, ChunkPool.internAll_snd,
    concatenate_slices (by rw [residentCutTokens]; omega), concatenate_slices (by rw [residentCutTokens]; omega)]

theorem chunkLayers_eq_ok (sha256 : Bytes → Bytes) (wide : elements ≠ 0) (live : List Bytes)
    (pool : ChunkPool) (planes : List CachePlaneSnapshot) : ∃ pool' chunked,
    chunkLayers sha256 elements live pool planes = .ok (pool', chunked) ∧
      chunked.map ChunkedPlane.materialize = planes := by
  induction planes generalizing live pool with
  | nil => exact ⟨pool, [], rfl, rfl⟩
  | cons plane planes ih =>
    obtain ⟨pool', first, cut, back⟩ := chunkPlane_eq_ok sha256 wide live pool plane
    obtain ⟨last, rest, cuts, backs⟩ := ih (first.key ++ first.value ++ live) pool'
    refine ⟨last, first :: rest, ?_, by rw [List.map_cons, back, backs]⟩
    rw [chunkLayers, cut]
    simp only [bind, Except.bind, cuts]

/-- Cutting a valid snapshot succeeds, and the chunks materialize to that snapshot. -/
theorem chunkSnapshot_eq_ok (sha256 : Bytes → Bytes) (live : List Bytes) (pool : ChunkPool)
    (valid : snapshot.validate = .ok ()) (lastLogits : Option (List Logit)) :
    ∃ pool' resident, chunkSnapshot sha256 live pool snapshot lastLogits = .ok (pool', resident) ∧
      resident.materialize = .ok snapshot ∧ resident.position = snapshot.position ∧
      resident.tokens = snapshot.tokens ∧ resident.lastLogits = lastLogits := by
  obtain ⟨-, -, wide⟩ := SessionCacheSnapshot.validate_ok valid
  obtain ⟨pool', layers, cuts, backs⟩ := chunkLayers_eq_ok sha256 wide live pool snapshot.layers
  refine ⟨pool', ⟨snapshot.position, snapshot.tokens, snapshot.elementsPerToken, layers, lastLogits⟩, ?_, ?_, rfl, rfl, rfl⟩
  · rw [chunkSnapshot, cuts]
    rfl
  · rw [ResidentSnapshot.materialize, backs]
    simp only [valid]

/-- What materializes is valid and has the tokens of the entry. -/
theorem ResidentSnapshot.materialize_ok {resident : ResidentSnapshot}
    (materialized : resident.materialize = .ok snapshot) :
    snapshot.validate = .ok () ∧ snapshot.tokens = resident.tokens := by
  rw [ResidentSnapshot.materialize] at materialized
  split at materialized
  · simp at materialized
  · next valid =>
    cases materialized
    exact ⟨valid, rfl⟩

end Muser.Resident
