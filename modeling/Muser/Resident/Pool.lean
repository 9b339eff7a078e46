import Mathlib.Algebra.BigOperators.Group.List.Basic
import Mathlib.Data.List.Dedup
import Muser.Resident.Radix

/-! # What the chunk pool counts

The pool holds weak references by digest. It tracks a set of live chunks when each of them is
referenced under its digest and no chunk is referenced twice; then the bytes it counts are those of
the distinct live chunks, however many entries and callers share them.
-/

namespace Muser.Resident

open Muser.Engine Muser.Radix

/-- A sum that saturates at every step is the saturated sum. -/
theorem foldl_saturatingAdd {α : Type} (size : α → ℕ) (items : List α) (start : ℕ) :
    items.foldl (fun total item => saturatingAdd total (size item)) (min start (usizeBound - 1)) =
      min (start + (items.map size).sum) (usizeBound - 1) := by
  induction items generalizing start with
  | nil => simp
  | cons item items ih =>
    have step : saturatingAdd (min start (usizeBound - 1)) (size item) = min (start + size item) (usizeBound - 1) := by
      rw [saturatingAdd]
      omega
    rw [List.foldl_cons, step, ih, List.map_cons, List.sum_cons, Nat.add_assoc]

namespace ChunkPool

/-- The references of a pool to the chunks of some snapshots. -/
structure Tracks (sha256 : Bytes → Bytes) (pool : ChunkPool) (live : List Bytes) : Prop where
  digests : (pool.byDigest.map Prod.fst).Nodup
  digest : ∀ bucket ∈ pool.byDigest, ∀ chunk ∈ bucket.2, sha256 chunk = bucket.1
  distinct : ∀ bucket ∈ pool.byDigest, bucket.2.Nodup
  referenced : ∀ chunk ∈ live, ∃ bucket ∈ pool.byDigest, chunk ∈ bucket.2

variable {sha256 : Bytes → Bytes} {pool : ChunkPool} {live fewer : List Bytes}

theorem tracks_empty : Tracks sha256 ⟨[]⟩ [] :=
  ⟨List.nodup_nil, by simp, by simp, by simp⟩

theorem Tracks.mono (tracks : Tracks sha256 pool live) (subset : fewer ⊆ live) : Tracks sha256 pool fewer :=
  ⟨tracks.digests, tracks.digest, tracks.distinct, fun chunk member => tracks.referenced chunk (subset member)⟩

/-- The bucket of a digest, or none. -/
theorem candidates_cases (pool : ChunkPool) (digest : Bytes) :
    (∃ bucket ∈ pool.byDigest, bucket.1 = digest ∧ pool.candidates digest = bucket.2) ∨
      ((∀ bucket ∈ pool.byDigest, bucket.1 ≠ digest) ∧ pool.candidates digest = []) := by
  rw [candidates]
  cases found : pool.byDigest.lookup digest with
  | none =>
    refine Or.inr ⟨fun bucket member same => ?_, rfl⟩
    rw [List.lookup_eq_none_iff] at found
    simpa [same] using found bucket member
  | some chunks =>
    obtain ⟨before, after, split, -⟩ := List.lookup_eq_some_iff.mp found
    exact Or.inl ⟨(digest, chunks), by rw [split]; simp, rfl, rfl⟩

/-- Every referenced chunk with a digest is a candidate for it. -/
theorem Tracks.mem_candidates (tracks : Tracks sha256 pool live) {chunk : Bytes} (member : chunk ∈ live) :
    chunk ∈ pool.candidates (sha256 chunk) := by
  obtain ⟨bucket, stored, inside⟩ := tracks.referenced chunk member
  have keyed := tracks.digest bucket stored chunk inside
  have found : pool.byDigest.lookup (sha256 chunk) = some bucket.2 := by
    obtain ⟨before, after, split⟩ := List.append_of_mem stored
    have fresh : ∀ other ∈ before, other.1 ≠ bucket.1 := by
      intro other earlier same
      have nodup := tracks.digests
      rw [split, List.map_append, List.map_cons, List.nodup_append] at nodup
      exact nodup.2.2 other.1 (List.mem_map_of_mem earlier) bucket.1 List.mem_cons_self same
    rw [split, List.lookup_append, keyed]
    have missing : before.lookup bucket.1 = none := by
      rw [List.lookup_eq_none_iff]
      intro other earlier
      simpa using (fresh other earlier).symm
    rw [missing, Option.none_or, List.lookup_cons_self]
  rw [candidates, found]
  exact inside

/-- Replacing the bucket of a digest by live candidates keeps the pool in order. -/
theorem Tracks.store (tracks : Tracks sha256 pool live) {digest : Bytes} {chunks : List Bytes}
    (keyed : ∀ chunk ∈ chunks, sha256 chunk = digest) (distinct : chunks.Nodup)
    (kept : ∀ chunk ∈ live, sha256 chunk = digest → chunk ∈ chunks) (more : List Bytes)
    (added : ∀ chunk ∈ more, chunk ∈ chunks) : Tracks sha256 (pool.store digest chunks) (more ++ live) where
  digests := by
    rw [ChunkPool.store, List.map_cons, List.nodup_cons]
    refine ⟨fun again => ?_, (List.filter_sublist.map _).nodup tracks.digests⟩
    obtain ⟨bucket, member, same⟩ := List.mem_map.mp again
    have other := (List.mem_filter.mp member).2
    simp [same] at other
  digest bucket member chunk inside := by
    rw [ChunkPool.store] at member
    rcases List.mem_cons.mp member with rfl | other
    · exact keyed chunk inside
    · exact tracks.digest bucket (List.mem_filter.mp other).1 chunk inside
  distinct bucket member := by
    rw [ChunkPool.store] at member
    rcases List.mem_cons.mp member with rfl | other
    · exact distinct
    · exact tracks.distinct bucket (List.mem_filter.mp other).1
  referenced chunk member := by
    rw [ChunkPool.store]
    rcases List.mem_append.mp member with new | old
    · exact ⟨_, List.mem_cons_self, added chunk new⟩
    · by_cases same : sha256 chunk = digest
      · exact ⟨_, List.mem_cons_self, kept chunk old same⟩
      · obtain ⟨bucket, stored, inside⟩ := tracks.referenced chunk old
        refine ⟨bucket, List.mem_cons_of_mem _ (List.mem_filter.mpr ⟨stored, ?_⟩), inside⟩
        rw [← tracks.digest bucket stored chunk inside]
        simpa using same

/-- An interned chunk is referenced, beside those that are alive. -/
theorem Tracks.intern (tracks : Tracks sha256 pool live) (bytes : Bytes) :
    Tracks sha256 (pool.intern sha256 live bytes).1 (bytes :: live) := by
  have alive : ∀ chunk ∈ live, sha256 chunk = sha256 bytes →
      chunk ∈ (pool.candidates (sha256 bytes)).filter live.contains := by
    intro chunk member same
    exact List.mem_filter.mpr ⟨same ▸ tracks.mem_candidates member, by simpa using member⟩
  have bucket : (∀ chunk ∈ pool.candidates (sha256 bytes), sha256 chunk = sha256 bytes) ∧
      (pool.candidates (sha256 bytes)).Nodup := by
    rcases pool.candidates_cases (sha256 bytes) with ⟨bucket, member, same, candidates⟩ | ⟨-, candidates⟩
    · rw [candidates, ← same]
      exact ⟨tracks.digest bucket member, tracks.distinct bucket member⟩
    · rw [candidates]
      exact ⟨by simp, List.nodup_nil⟩
  have keyed : ∀ chunk ∈ (pool.candidates (sha256 bytes)).filter live.contains, sha256 chunk = sha256 bytes :=
    fun chunk member => bucket.1 chunk (List.mem_filter.mp member).1
  have distinct := bucket.2.filter live.contains
  rw [ChunkPool.intern]
  split
  · next existing found =>
    have same : existing = bytes := by simpa using List.find?_some found
    subst same
    exact tracks.store keyed distinct alive [existing] fun chunk member => by
      rw [List.mem_singleton.mp member]
      exact List.mem_of_find?_eq_some found
  · next missing =>
    have absent : bytes ∉ (pool.candidates (sha256 bytes)).filter live.contains := by
      intro member
      have refuted := List.find?_eq_none.mp missing bytes member
      simp at refuted
    refine tracks.store ?_ ?_ ?_ [bytes] ?_
    · intro chunk member
      rcases List.mem_append.mp member with old | new
      · exact keyed chunk old
      · rw [List.mem_singleton.mp new]
    · exact List.nodup_append.mpr ⟨distinct, List.nodup_singleton _, fun chunk old other new => by
        rw [List.mem_singleton.mp new]
        rintro rfl
        exact absent old⟩
    · exact fun chunk member same => List.mem_append_left _ (alive chunk member same)
    · exact fun chunk member => List.mem_append_right _ member

theorem Tracks.internAll (tracks : Tracks sha256 pool live) (slices : List Bytes) :
    Tracks sha256 (pool.internAll sha256 live slices).1 (slices ++ live) := by
  induction slices generalizing pool live with
  | nil => exact tracks
  | cons slice slices ih =>
    rw [ChunkPool.internAll]
    dsimp only
    rw [intern_snd]
    refine (ih (tracks.intern slice)).mono ?_
    intro chunk member
    simp only [List.mem_append, List.mem_cons] at member ⊢
    tauto

/-- Forgetting the dead references keeps the live ones. -/
theorem Tracks.liveBytes (tracks : Tracks sha256 pool live) : Tracks sha256 (pool.liveBytes live).1 live := by
  have back : ∀ bucket ∈ (pool.liveBytes live).1.byDigest, ∃ full ∈ pool.byDigest, bucket.1 = full.1 ∧
      bucket.2 = full.2.filter live.contains := by
    intro bucket member
    obtain ⟨full, stored, rfl⟩ := List.mem_map.mp (List.mem_filter.mp member).1
    exact ⟨full, stored, rfl, rfl⟩
  refine ⟨?_, fun bucket member chunk inside => ?_, fun bucket member => ?_, fun chunk member => ?_⟩
  · rw [ChunkPool.liveBytes]
    refine (List.filter_sublist.map _).nodup ?_
    rw [List.map_map]
    exact tracks.digests
  · obtain ⟨full, stored, same, chunks⟩ := back bucket member
    rw [chunks] at inside
    rw [same]
    exact tracks.digest full stored chunk (List.mem_filter.mp inside).1
  · obtain ⟨full, stored, -, chunks⟩ := back bucket member
    rw [chunks]
    exact (tracks.distinct full stored).filter _
  · obtain ⟨full, stored, inside⟩ := tracks.referenced chunk member
    have kept : chunk ∈ full.2.filter live.contains := List.mem_filter.mpr ⟨inside, by simpa using member⟩
    refine ⟨(full.1, full.2.filter live.contains), List.mem_filter.mpr ⟨List.mem_map_of_mem stored, ?_⟩, kept⟩
    simp only [Bool.not_eq_true', List.isEmpty_eq_false_iff]
    exact List.ne_nil_of_mem kept

/-- The chunks that survive the forgetting are the distinct live ones. -/
theorem Tracks.retained_perm (tracks : Tracks sha256 pool live) :
    ((pool.liveBytes live).1.byDigest.flatMap Prod.snd).Perm live.dedup := by
  have after := tracks.liveBytes
  rw [List.perm_ext_iff_of_nodup _ live.nodup_dedup]
  · intro chunk
    rw [List.mem_dedup, List.mem_flatMap]
    constructor
    · rintro ⟨bucket, member, inside⟩
      obtain ⟨full, -, rfl⟩ := List.mem_map.mp (List.mem_filter.mp member).1
      simpa using (List.mem_filter.mp inside).2
    · exact after.referenced chunk
  · rw [List.nodup_flatMap]
    refine ⟨after.distinct, ?_⟩
    have keys := after.digests
    rw [List.nodup_iff_pairwise_ne, List.pairwise_map] at keys
    refine keys.imp_of_mem fun {left right} first second differ => ?_
    intro chunk inLeft inRight
    exact differ ((after.digest left first chunk inLeft).symm.trans (after.digest right second chunk inRight))

/-- The count of a pool is the size of the distinct live chunks. -/
theorem Tracks.liveBytes_snd (tracks : Tracks sha256 pool live) :
    (pool.liveBytes live).2 = min ((live.dedup.map List.length).sum) (usizeBound - 1) := by
  have counted := foldl_saturatingAdd List.length ((pool.liveBytes live).1.byDigest.flatMap Prod.snd) 0
  rw [Nat.zero_min, Nat.zero_add, (tracks.retained_perm.map List.length).sum_eq] at counted
  exact counted

end ChunkPool

variable {sha256 : Bytes → Bytes} {pool pool' : ChunkPool} {live : List Bytes}

theorem chunkPlane_tracks {elements : UInt32} {plane : CachePlaneSnapshot} {chunked : ChunkedPlane}
    (tracks : ChunkPool.Tracks sha256 pool live)
    (cut : chunkPlane sha256 elements live pool plane = .ok (pool', chunked)) :
    ChunkPool.Tracks sha256 pool' (chunked.key ++ chunked.value ++ live) := by
  simp only [chunkPlane, bind_eq_ok_iff] at cut
  obtain ⟨rowBytes, -, chunkBytes, -, made⟩ := cut
  cases made
  simp only [ChunkPool.internAll_snd]
  refine ((tracks.internAll _).internAll _).mono ?_
  intro chunk member
  simp only [List.mem_append] at member ⊢
  tauto

theorem chunkLayers_tracks {elements : UInt32} {planes : List CachePlaneSnapshot} {layers : List ChunkedPlane}
    (tracks : ChunkPool.Tracks sha256 pool live)
    (cuts : chunkLayers sha256 elements live pool planes = .ok (pool', layers)) :
    ChunkPool.Tracks sha256 pool' ((layers.flatMap fun plane => plane.key ++ plane.value) ++ live) := by
  induction planes generalizing pool live layers with
  | nil =>
    cases cuts
    exact tracks
  | cons plane planes ih =>
    simp only [chunkLayers, bind_eq_ok_iff] at cuts
    obtain ⟨⟨middle, first⟩, cut, ⟨last, rest⟩, others, made⟩ := cuts
    cases made
    refine (ih (chunkPlane_tracks tracks cut) others).mono ?_
    intro chunk member
    simp only [List.flatMap_cons, List.mem_append] at member ⊢
    tauto

/-- The chunks of a new resident snapshot are referenced, beside those that were alive. -/
theorem chunkSnapshot_tracks {snapshot : SessionCacheSnapshot} {lastLogits : Option (List Logit)}
    {resident : ResidentSnapshot} (tracks : ChunkPool.Tracks sha256 pool live)
    (cut : chunkSnapshot sha256 live pool snapshot lastLogits = .ok (pool', resident)) :
    ChunkPool.Tracks sha256 pool' (resident.chunks ++ live) := by
  simp only [chunkSnapshot, bind_eq_ok_iff] at cut
  obtain ⟨⟨last, layers⟩, cuts, made⟩ := cut
  cases made
  exact chunkLayers_tracks tracks cuts

namespace ResidentRadix

/-- The bytes of the logits of an entry. -/
def logitsBytes (entry : ResidentEntry) : ℕ := entry.snapshot.lastLogits.elim 0 fun values => 4 * values.length

/-- The bytes in use: the distinct chunks of the entries and of what callers hold, and the logits. -/
def usedBytes (root : RadixNode) (held : List ResidentSnapshot) : ℕ :=
  ((liveChunks root held).dedup.map List.length).sum + (root.entries.map logitsBytes).sum

/-- Saturated summands do not show in a saturated sum. -/
theorem min_sum_min {α : Type} (size : α → ℕ) (items : List α) (limit : ℕ) :
    min (items.map fun item => min (size item) limit).sum limit = min (items.map size).sum limit := by
  induction items with
  | nil => rfl
  | cons item items ih =>
    simp only [List.map_cons, List.sum_cons]
    omega

theorem entryLogitsBytes_eq (root : RadixNode) :
    entryLogitsBytes root = min (root.entries.map logitsBytes).sum (usizeBound - 1) := by
  have size : ∀ entry : ResidentEntry, (entry.snapshot.lastLogits.elim 0 fun values => saturatingMul values.length 4) =
      min (logitsBytes entry) (usizeBound - 1) := by
    intro entry
    rw [logitsBytes]
    cases entry.snapshot.lastLogits with
    | none => rfl
    | some values => rw [Option.elim_some, Option.elim_some, saturatingMul, Nat.mul_comm]
  have counted := foldl_saturatingAdd (fun entry : ResidentEntry => min (logitsBytes entry) (usizeBound - 1))
    root.entries 0
  rw [Nat.zero_min, Nat.zero_add, min_sum_min] at counted
  simp only [entryLogitsBytes, size]
  exact counted

/-- What the loop measures is what is in use, in a saturating counter. -/
theorem residentBytes_eq {radix : ResidentRadix} {held : List ResidentSnapshot}
    (tracks : ChunkPool.Tracks sha256 radix.chunks (liveChunks radix.root held)) :
    radix.residentBytes held = min (usedBytes radix.root held) (usizeBound - 1) := by
  rw [residentBytes, tracks.liveBytes_snd, entryLogitsBytes_eq, saturatingAdd, usedBytes]
  omega

end ResidentRadix

end Muser.Resident
