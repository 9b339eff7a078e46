import Muser.Resident.History
import Muser.Resident.Pool
import Muser.Resident.Recency

/-! # Capacity and eviction

A run of the resident tier carries the snapshots that callers hold. In every state of a run an
insertion evicts the oldest entries until the bytes in use fit, and the new entry is the last to go.
-/

namespace Muser.Resident

open Muser.Engine Muser.Radix

namespace ResidentRadix

variable {sha256 : Bytes → Bytes} {capacity : ℕ} {radix next : ResidentRadix} {held : List ResidentSnapshot}

/-- The snapshot of a hit, beside those that were held. -/
def holding (hit : Option ResidentHit) (held : List ResidentSnapshot) : List ResidentSnapshot :=
  hit.elim held fun hit => hit.snapshot :: held

/-- What `stats` does to the tree: it forgets the references to dead chunks. -/
def afterStats (radix : ResidentRadix) (held : List ResidentSnapshot) : ResidentRadix :=
  { radix with chunks := (radix.chunks.liveBytes (liveChunks radix.root held)).1 }

/-- The states of a tree, with the snapshots that callers hold. A caller clones and drops what it holds. -/
inductive Reachable (sha256 : Bytes → Bytes) (capacity : ℕ) : ResidentRadix → List ResidentSnapshot → Prop
  | new {radix : ResidentRadix} (fresh : ResidentRadix.new capacity = .ok radix) : Reachable sha256 capacity radix []
  | insert {radix : ResidentRadix} {held : List ResidentSnapshot} (reachable : Reachable sha256 capacity radix held)
      (layout : Layout) (identity : Option IdentityDigest) (snapshot : SessionCacheSnapshot)
      (lastLogits : Option (List Logit)) :
      Reachable sha256 capacity (radix.insertWithLogits sha256 layout held identity snapshot lastLogits).2 held
  | lookup {radix : ResidentRadix} {held : List ResidentSnapshot} (reachable : Reachable sha256 capacity radix held)
      (identity : Option IdentityDigest) (tokens : List Token) (maxCut : ℕ) :
      Reachable sha256 capacity (radix.lookupCapped identity tokens maxCut).2
        (holding (radix.lookupCapped identity tokens maxCut).1 held)
  | stats {radix : ResidentRadix} {held : List ResidentSnapshot} (reachable : Reachable sha256 capacity radix held) :
      Reachable sha256 capacity (radix.afterStats held) held
  | release {radix : ResidentRadix} {held rest : List ResidentSnapshot}
      (reachable : Reachable sha256 capacity radix held) (kept : rest ⊆ held) : Reachable sha256 capacity radix rest

/-- Entries that were there before keep no other chunks alive. -/
theorem liveChunks_subset {root other : RadixNode} {held rest : List ResidentSnapshot} (extra : List Bytes)
    (entries : ∀ entry ∈ other.entries, (∃ old ∈ root.entries, old.snapshot = entry.snapshot) ∨
      ∀ chunk ∈ entry.snapshot.chunks, chunk ∈ extra)
    (kept : ∀ snapshot ∈ rest, snapshot ∈ held ∨ ∃ old ∈ root.entries, old.snapshot = snapshot) :
    liveChunks other rest ⊆ extra ++ liveChunks root held := by
  intro chunk member
  rw [liveChunks, List.mem_flatMap] at member
  obtain ⟨snapshot, owner, inside⟩ := member
  have old : (∃ old ∈ root.entries, old.snapshot = snapshot) ∨ snapshot ∈ held → chunk ∈ liveChunks root held := by
    intro owned
    rw [liveChunks, List.mem_flatMap]
    refine ⟨snapshot, List.mem_append.mpr ?_, inside⟩
    rcases owned with ⟨old, member, rfl⟩ | member
    · exact Or.inl (List.mem_map_of_mem member)
    · exact Or.inr member
  rw [List.mem_append]
  rcases List.mem_append.mp owner with stored | out
  · obtain ⟨entry, member, rfl⟩ := List.mem_map.mp stored
    rcases entries entry member with same | new
    · exact Or.inr (old (Or.inl same))
    · exact Or.inl (new chunk inside)
  · exact Or.inr (old (kept snapshot out).symm)

/-- What holds in every state of a run. -/
structure Consistent (sha256 : Bytes → Bytes) (capacity : ℕ) (radix : ResidentRadix) (held : List ResidentSnapshot) :
    Prop where
  stamped : Stamped radix
  occupied : radix.root.Occupied
  tracks : ChunkPool.Tracks sha256 radix.chunks (liveChunks radix.root held)
  represents : ∃ contents : Contents, radix.Represents contents
  evictions : radix.evictions ≤ lastTick
  capacity : radix.capacityBytes = capacity

/-- What the loop took, in order, and what it left. -/
structure Evicts (radix next : ResidentRadix) (gone : List (List UInt32 × ResidentEntry)) : Prop where
  taken : ∀ pair ∈ gone, radix.root.find pair.1 = some pair.2
  distinct : (gone.map Prod.fst).Nodup
  left : ∀ key, next.root.find key = if key ∈ gone.map Prod.fst then none else radix.root.find key
  ordered : gone.Pairwise fun earlier later => earlier.2.lastAccess ≤ later.2.lastAccess
  oldest : ∀ pair ∈ gone, ∀ key survivor, next.root.find key = some survivor →
    pair.2.lastAccess ≤ survivor.lastAccess

theorem Evicts.nothing (radix : ResidentRadix) : Evicts radix radix [] :=
  ⟨by simp, List.nodup_nil, by simp, List.Pairwise.nil, by simp⟩

/-- One more turn in front. -/
theorem Evicts.cons {last : ResidentRadix} {gone : List (List UInt32 × ResidentEntry)} (evicts : Evicts next last gone)
    {removed : List UInt32} {entry : ResidentEntry} (found : radix.root.find removed = some entry)
    (finds : ∀ key, next.root.find key = if key = removed then none else radix.root.find key)
    (oldest : ∀ key other, radix.root.find key = some other → entry.lastAccess ≤ other.lastAccess) :
    Evicts radix last ((removed, entry) :: gone) := by
  have before : ∀ key other, next.root.find key = some other → key ≠ removed ∧ radix.root.find key = some other := by
    intro key other here
    rw [finds] at here
    split at here
    · cases here
    · next differ => exact ⟨differ, here⟩
  have survived : ∀ key other, last.root.find key = some other → next.root.find key = some other := by
    intro key other here
    rw [evicts.left] at here
    split at here
    · cases here
    · exact here
  refine ⟨?_, ?_, fun key => ?_, ?_, ?_⟩
  · intro pair member
    rcases List.mem_cons.mp member with rfl | rest
    · exact found
    · exact (before pair.1 pair.2 (evicts.taken pair rest)).2
  · rw [List.map_cons, List.nodup_cons]
    refine ⟨fun again => ?_, evicts.distinct⟩
    obtain ⟨pair, member, same⟩ := List.mem_map.mp again
    exact (before pair.1 pair.2 (evicts.taken pair member)).1 same
  · simp only [evicts.left, finds, List.map_cons, List.mem_cons]
    split
    · next gone => rw [if_pos (Or.inr gone)]
    · next stays =>
      split
      · next same => rw [if_pos (Or.inl same)]
      · next differ => rw [if_neg (not_or.mpr ⟨differ, stays⟩)]
  · rw [List.pairwise_cons]
    exact ⟨fun pair member => oldest pair.1 pair.2 (before pair.1 pair.2 (evicts.taken pair member)).2, evicts.ordered⟩
  · intro pair member key survivor here
    rcases List.mem_cons.mp member with rfl | rest
    · exact oldest key survivor (before key survivor (survived key survivor here)).2
    · exact evicts.oldest pair rest key survivor here

/-- The loop takes the oldest entries one by one and keeps the counters and the pool in order. -/
theorem evict_run (held : List ResidentSnapshot) (turns : ℕ) {radix : ResidentRadix} (stamped : Stamped radix)
    (occupied : radix.root.Occupied) (tracks : ChunkPool.Tracks sha256 radix.chunks (liveChunks radix.root held)) :
    ∃ gone, Evicts radix (evict held turns radix) gone ∧ Stamped (evict held turns radix) ∧
      (evict held turns radix).root.Occupied ∧
      ChunkPool.Tracks sha256 (evict held turns radix).chunks (liveChunks (evict held turns radix).root held) ∧
      (evict held turns radix).capacityBytes = radix.capacityBytes := by
  induction turns generalizing radix with
  | zero => exact ⟨[], Evicts.nothing radix, stamped, occupied, tracks, rfl⟩
  | succ turns ih =>
    rw [evict]
    split
    · exact ⟨[], Evicts.nothing radix, stamped, occupied, tracks, rfl⟩
    · next next turn =>
      obtain ⟨nextStamped, nextOccupied, -, removed, entry, found, finds, oldest⟩ := evictOne_oldest stamped turn
      have kept : next.chunks = (radix.chunks.liveBytes (liveChunks radix.root held)).1 ∧
          next.capacityBytes = radix.capacityBytes := by
        rw [evictOne] at turn
        split at turn
        · cases turn
        · obtain ⟨id, -, rfl⟩ := Option.map_eq_some_iff.mp turn
          exact ⟨rfl, rfl⟩
      have fewer : liveChunks next.root held ⊆ [] ++ liveChunks radix.root held := by
        refine liveChunks_subset [] (fun other member => Or.inl ?_) fun snapshot member => Or.inl member
        obtain ⟨key, here⟩ := Node.exists_find_of_mem nextStamped.valid member
        rw [finds] at here
        split at here
        · cases here
        · exact ⟨other, Node.mem_entries_of_find here, rfl⟩
      have nextTracks : ChunkPool.Tracks sha256 next.chunks (liveChunks next.root held) := by
        rw [kept.1]
        exact tracks.liveBytes.mono fewer
      obtain ⟨gone, evicts, rest⟩ := ih nextStamped nextOccupied nextTracks
      refine ⟨(removed, entry) :: gone, evicts.cons found finds oldest, rest.1, rest.2.1, rest.2.2.1, ?_⟩
      rw [rest.2.2.2, kept.2]

/-- The tree of a run right after `insert_recursive`, before the loop. -/
theorem Consistent.place (consistent : Consistent sha256 capacity radix held) (layout : Layout)
    (identity : Option IdentityDigest) {snapshot : SessionCacheSnapshot} {lastLogits : Option (List Logit)}
    {pool : ChunkPool} {entry : ResidentEntry}
    (cut : chunkSnapshot sha256 (liveChunks radix.root held) radix.chunks snapshot lastLogits = .ok (pool, entry.snapshot))
    (id : entry.id = radix.nextId) (stamp : entry.lastAccess = saturatingAdd radix.clock 1)
    (carries : entry.Carries ⟨snapshot, lastLogits⟩) :
    Consistent sha256 capacity (radix.place layout (scopedKey identity snapshot.tokens) entry pool) held ∧
      ∀ key, (radix.place layout (scopedKey identity snapshot.tokens) entry pool).root.find key =
        if key = scopedKey identity snapshot.tokens then some entry else radix.root.find key := by
  obtain ⟨contents, represents⟩ := consistent.represents
  obtain ⟨stamped, finds⟩ := consistent.stamped.place layout (scopedKey identity snapshot.tokens) pool id stamp
  refine ⟨⟨stamped, ?_, ?_, ⟨_, represents.insert carries stamped.valid finds⟩, consistent.evictions,
    consistent.capacity⟩, finds⟩
  · exact (layout.reorders _).occupied (Node.occupied_insert consistent.occupied _ entry)
  · refine (chunkSnapshot_tracks consistent.tracks cut).mono (liveChunks_subset _ (fun other member => ?_)
      fun old member => Or.inl member)
    obtain ⟨key, found⟩ := Node.exists_find_of_mem stamped.valid member
    rw [finds] at found
    split at found
    · cases found
      exact Or.inr fun chunk inside => inside
    · exact Or.inl ⟨other, Node.mem_entries_of_find found, rfl⟩

/-- An accepted insertion on a consistent tree places its entry and evicts. -/
theorem Consistent.insert (consistent : Consistent sha256 capacity radix held) (layout : Layout)
    (identity : Option IdentityDigest) {snapshot : SessionCacheSnapshot} {lastLogits : Option (List Logit)}
    (admits : Admits snapshot lastLogits) : ∃ entry placed gone,
      entry.id = radix.nextId ∧ entry.lastAccess = saturatingAdd radix.clock 1 ∧ Consistent sha256 capacity placed held ∧
      (∀ key, placed.root.find key =
        if key = scopedKey identity snapshot.tokens then some entry else radix.root.find key) ∧
      Evicts placed (radix.insertWithLogits sha256 layout held identity snapshot lastLogits).2 gone ∧
      Consistent sha256 capacity (radix.insertWithLogits sha256 layout held identity snapshot lastLogits).2 held ∧
      (radix.insertWithLogits sha256 layout held identity snapshot lastLogits).2.evictOne held = none ∧
      (radix.insertWithLogits sha256 layout held identity snapshot lastLogits).1 =
        .ok (findId (radix.insertWithLogits sha256 layout held identity snapshot lastLogits).2.root radix.nextId) := by
  obtain ⟨pool, entry, placed, cut, id, stamp, carries, placedEq, unfolded⟩ :=
    insertWithLogits_eq sha256 layout held radix identity admits
  obtain ⟨placedConsistent, finds⟩ := consistent.place layout identity cut id stamp carries
  rw [← placedEq] at placedConsistent finds
  obtain ⟨gone, evicts, stamped, occupied, tracks, capacityBytes⟩ := evict_run held placed.root.entries.length
    placedConsistent.stamped placedConsistent.occupied placedConsistent.tracks
  obtain ⟨contents, represents⟩ := placedConsistent.represents
  obtain ⟨_, after, count, -⟩ := evict_spec held placed.root.entries.length represents placedConsistent.evictions
  have done := evict_done held represents.valid (le_refl placed.root.entries.length)
  rw [unfolded]
  exact ⟨entry, placed, gone, id, stamp, placedConsistent, finds, evicts,
    ⟨stamped, occupied, tracks, ⟨_, after⟩, by rw [count]; exact min_le_right _ _,
      by rw [capacityBytes, placedConsistent.capacity]⟩, done, rfl⟩

/-- The snapshot of a hit belongs to an entry of the tree. -/
theorem lookupCapped_owner (represents : ∃ contents : Contents, radix.Represents contents)
    {identity : Option IdentityDigest} {tokens : List Token} {maxCut : ℕ} {hit : ResidentHit}
    (found : (radix.lookupCapped identity tokens maxCut).1 = some hit) :
    ∃ entry ∈ radix.root.entries, entry.snapshot = hit.snapshot := by
  obtain ⟨contents, represents⟩ := represents
  have deepest := longestMatch_deepest (saturatingAdd radix.clock 1) (identityKeyWords + maxCut) represents.valid
    (scopedKey identity tokens) 0 none
  change (longestMatch (saturatingAdd radix.clock 1) (identityKeyWords + maxCut) radix.root (scopedKey identity tokens) 0
    none).2 = some hit at found
  rw [found] at deepest
  rcases deepest with ⟨-, missed⟩ | ⟨depth, entry, stored, -, -, answer⟩
  · cases missed
  · cases answer
    exact ⟨entry, Node.mem_entries_of_find stored.2.2, rfl⟩

theorem Consistent.lookup (consistent : Consistent sha256 capacity radix held) (identity : Option IdentityDigest)
    (tokens : List Token) (maxCut : ℕ) : Consistent sha256 capacity (radix.lookupCapped identity tokens maxCut).2
      (holding (radix.lookupCapped identity tokens maxCut).1 held) := by
  have stamped := consistent.stamped.lookupCapped identity tokens maxCut
  obtain ⟨contents, represents⟩ := consistent.represents
  refine ⟨stamped, occupied_longestMatch _ _ consistent.occupied _ _ _, ?_,
    ⟨contents, represents_lookupCapped represents identity tokens maxCut⟩, consistent.evictions, consistent.capacity⟩
  refine consistent.tracks.mono (liveChunks_subset [] (fun other member => Or.inl ?_) fun snapshot member => ?_)
  · obtain ⟨key, found⟩ := Node.exists_find_of_mem stamped.valid member
    change (longestMatch (saturatingAdd radix.clock 1) (identityKeyWords + maxCut) radix.root
      (scopedKey identity tokens) 0 none).1.find key = some other at found
    rcases find_longestMatch_cases (saturatingAdd radix.clock 1) (identityKeyWords + maxCut) radix.root
      (scopedKey identity tokens) 0 none key with same | touched
    · rw [found] at same
      exact ⟨other, Node.mem_entries_of_find same.symm, rfl⟩
    · rw [found, eq_comm, Option.map_eq_some_iff] at touched
      obtain ⟨old, here, rfl⟩ := touched
      exact ⟨old, Node.mem_entries_of_find here, rfl⟩
  · cases hit : (radix.lookupCapped identity tokens maxCut).1 with
    | none =>
      rw [hit] at member
      exact Or.inl member
    | some hit' =>
      rw [hit, holding, Option.elim_some] at member
      rcases List.mem_cons.mp member with rfl | old
      · exact Or.inr (lookupCapped_owner ⟨contents, represents⟩ hit)
      · exact Or.inl old

theorem Reachable.consistent (reachable : Reachable sha256 capacity radix held) :
    Consistent sha256 capacity radix held := by
  induction reachable with
  | new fresh =>
    have stamped := Stamped.new fresh
    have represents := represents_new fresh
    rw [ResidentRadix.new] at fresh
    split at fresh
    · cases fresh
    · cases fresh
      exact ⟨stamped, Node.occupied_empty, ChunkPool.tracks_empty, ⟨_, represents⟩, Nat.zero_le _, rfl⟩
  | @insert radix held _ layout identity snapshot lastLogits ih =>
    by_cases admits : Admits snapshot lastLogits
    · obtain ⟨_, _, _, -, -, -, -, -, after, -⟩ := ih.insert layout identity admits
      exact after
    · obtain ⟨failure, refused⟩ := insertWithLogits_refused sha256 layout held radix identity admits
      rw [refused]
      exact ih
  | lookup _ identity tokens maxCut ih => exact ih.lookup identity tokens maxCut
  | stats _ ih =>
    obtain ⟨contents, represents⟩ := ih.represents
    exact ⟨ih.stamped.of_find ih.stamped.valid rfl rfl fun _ _ found => found, ih.occupied, ih.tracks.liveBytes,
      ⟨contents, represents.retime represents.valid fun _ => rfl⟩, ih.evictions, ih.capacity⟩
  | release _ kept ih =>
    refine ⟨ih.stamped, ih.occupied, ih.tracks.mono ?_, ih.represents, ih.evictions, ih.capacity⟩
    exact liveChunks_subset [] (fun entry member => Or.inl ⟨entry, member, rfl⟩)
      fun snapshot member => Or.inl (kept member)

/-- Two neighbours of a list ordered by age: nothing younger than the rest comes before it. -/
theorem Evicts.getLast_of_youngest {gone : List (List UInt32 × ResidentEntry)} (evicts : Evicts radix next gone)
    {key : List UInt32} {entry : ResidentEntry} (member : (key, entry) ∈ gone)
    (youngest : ∀ other old, other ≠ key → radix.root.find other = some old → old.lastAccess < entry.lastAccess) :
    gone.getLast? = some (key, entry) ∧ ∀ other survivor, next.root.find other ≠ some survivor := by
  obtain ⟨front, back, rfl⟩ := List.append_of_mem member
  have last : back = [] := by
    rw [List.eq_nil_iff_forall_not_mem]
    intro pair later
    have differ : pair.1 ≠ key := by
      have nodup := evicts.distinct
      rw [List.map_append, List.map_cons, List.nodup_append, List.nodup_cons] at nodup
      intro same
      have again : pair.1 ∈ back.map Prod.fst := List.mem_map_of_mem later
      rw [same] at again
      exact nodup.2.1.1 again
    have older := youngest pair.1 pair.2 differ
      (evicts.taken pair (List.mem_append_right _ (List.mem_cons_of_mem _ later)))
    have ordered := evicts.ordered
    rw [List.pairwise_append, List.pairwise_cons] at ordered
    have age : entry.lastAccess ≤ pair.2.lastAccess := ordered.2.1.1 pair later
    lia
  subst last
  refine ⟨by simp, fun other survivor found => ?_⟩
  have age := evicts.oldest (key, entry) member other survivor found
  rw [evicts.left] at found
  split at found
  · cases found
  · next stays =>
    have differ : other ≠ key := by
      rintro rfl
      exact stays (List.mem_map_of_mem member)
    have older := youngest other survivor differ found
    change entry.lastAccess ≤ survivor.lastAccess at age
    lia

/-- An exact hit tells that the whole query is stored. -/
theorem lookup_exact_iff (represents : ∃ contents : Contents, radix.Represents contents)
    (identity : Option IdentityDigest) {tokens : List Token} (slice : tokens.length < usizeBound) :
    (∃ hit, (radix.lookup identity tokens).1 = some hit ∧ hit.exact = true) ↔
      (radix.stored identity tokens).isSome = true := by
  obtain ⟨contents, represents⟩ := represents
  have answers := lookupCapped_answers represents identity tokens (usizeBound - 1)
  rw [lookup]
  constructor
  · rintro ⟨hit, found, exact_⟩
    rw [found] at answers
    obtain ⟨cut, serves, -, whole, -⟩ := answers
    have stored := serves.2.2.2
    rw [whole.mp exact_, List.take_length] at stored
    rw [Option.isSome_iff_ne_none]
    intro none
    rw [represents.absent identity tokens none] at stored
    cases stored
  · intro stored
    obtain ⟨entry, found⟩ := Option.isSome_iff_exists.mp stored
    obtain ⟨cut, held, -⟩ := represents.present identity tokens entry found
    have serves : contents.Serves identity tokens (usizeBound - 1) tokens.length cut :=
      ⟨le_refl _, by omega, Or.inl rfl, by rwa [List.take_length]⟩
    cases hit : (radix.lookupCapped identity tokens (usizeBound - 1)).1 with
    | none =>
      rw [hit] at answers
      exact absurd serves (answers tokens.length cut)
    | some hit' =>
      rw [hit] at answers
      obtain ⟨other, may, deepest, whole, -⟩ := answers
      exact ⟨hit', rfl, whole.mpr (le_antisymm may.1 (deepest tokens.length cut serves))⟩

/-- What an accepted insertion leaves behind. -/
structure Inserted (capacity : ℕ) (radix next : ResidentRadix) (held : List ResidentSnapshot)
    (identity : Option IdentityDigest) (tokens : List Token) (answer : Bool) : Prop where
  ended : next.evictOne held = none
  bounded : min (usedBytes next.root held) lastTick ≤ capacity ∨ next.root.entries = []
  occupied : next.root.Occupied
  /-- The new entry takes the place of what its key held; the loop takes the oldest entries, in order, and
  nothing else; and as long as the clock runs the new entry is the last it takes. -/
  evicted : ∃ entry placed gone,
    (∀ key, placed.root.find key = if key = scopedKey identity tokens then some entry else radix.root.find key) ∧
    Evicts placed next gone ∧
    (radix.clock < lastTick → (scopedKey identity tokens, entry) ∈ gone →
      gone.getLast? = some (scopedKey identity tokens, entry) ∧ next.root.entries = [])
  answered : radix.clock < lastTick → tokens.length < usizeBound →
    (answer = true ↔ ∃ hit, (next.lookup identity tokens).1 = some hit ∧ hit.exact = true)

/-- In every state of a run an insertion is refused and changes nothing, or evicts the oldest entries until
the bytes in use fit. While the clock has not saturated, the new entry is the last to go and the answer says
whether it stayed. -/
theorem insert_evicts_oldest (reachable : Reachable sha256 capacity radix held) (layout : Layout)
    (identity : Option IdentityDigest) (snapshot : SessionCacheSnapshot) (lastLogits : Option (List Logit)) :
    (¬Admits snapshot lastLogits ∧
      ∃ failure, radix.insertWithLogits sha256 layout held identity snapshot lastLogits = (.error failure, radix)) ∨
    ∃ answer next, radix.insertWithLogits sha256 layout held identity snapshot lastLogits = (.ok answer, next) ∧
      Inserted capacity radix next held identity snapshot.tokens answer := by
  have consistent := reachable.consistent
  by_cases admits : Admits snapshot lastLogits
  · obtain ⟨entry, placed, gone, id, stamp, placedConsistent, finds, evicts, after, ended, answered⟩ :=
      consistent.insert layout identity admits
    generalize radix.insertWithLogits sha256 layout held identity snapshot lastLogits =
      outcome at evicts after ended answered ⊢
    obtain ⟨answer, next⟩ := outcome
    dsimp only at evicts after ended answered
    subst answered
    refine Or.inr ⟨_, next, rfl, ?_⟩
    have survived : ∀ key other, next.root.find key = some other → placed.root.find key = some other := by
      intro key other found
      rw [evicts.left] at found
      split at found
      · cases found
      · exact found
    -- while the clock runs, the new entry is younger than every other and alone with its identifier
    have younger : radix.clock < lastTick → ∀ key old, key ≠ scopedKey identity snapshot.tokens →
        placed.root.find key = some old → old.lastAccess < entry.lastAccess ∧ old.id < entry.id := by
      intro running key old differ found
      rw [finds, if_neg differ] at found
      have behind := consistent.stamped.stamp key old found
      have fresh : radix.clock < saturatingAdd radix.clock 1 := lt_min_iff.mpr ⟨Nat.lt_succ_self _, running⟩
      refine ⟨stamp ▸ behind.trans_lt fresh, ?_⟩
      rcases consistent.stamped.id key old found with small | ⟨-, last⟩
      · exact id ▸ small
      · lia
    refine ⟨ended, ?_, after.occupied, ⟨entry, placed, gone, finds, evicts, fun running member => ?_⟩,
      fun running slice => ?_⟩
    · rw [evictOne, residentBytes_eq after.tracks, after.capacity] at ended
      split at ended
      · next fits => exact Or.inl fits
      · refine Or.inr (by_contra fun nonempty => ?_)
        have some := findLru_isSome nonempty
        rw [Option.map_eq_none_iff] at ended
        simp [ended] at some
    · obtain ⟨last, none⟩ := evicts.getLast_of_youngest member fun key old differ found =>
        (younger running key old differ found).1
      refine ⟨last, List.eq_nil_iff_forall_not_mem.mpr fun survivor stays => ?_⟩
      obtain ⟨key, found⟩ := Node.exists_find_of_mem after.stamped.valid stays
      exact none key survivor found
    · rw [lookup_exact_iff after.represents identity slice, findId, List.any_eq_true]
      constructor
      · rintro ⟨survivor, stays, same⟩
        obtain ⟨key, found⟩ := Node.exists_find_of_mem after.stamped.valid stays
        by_cases new : key = scopedKey identity snapshot.tokens
        · rw [stored, ← new, found]
          rfl
        · have other := (younger running key survivor new (survived key survivor found)).2
          rw [beq_iff_eq] at same
          lia
      · intro stays
        obtain ⟨survivor, found⟩ := Option.isSome_iff_exists.mp stays
        have here := survived _ survivor found
        rw [finds, if_pos rfl] at here
        cases here
        exact ⟨entry, Node.mem_entries_of_find found, by simp [id]⟩
  · exact Or.inl ⟨admits, insertWithLogits_refused sha256 layout held radix identity admits⟩

/-- Room for one chunk of two bytes and one logit. -/
def tinyRadix : ResidentRadix := { oneTokenRadix with capacityBytes := 6 }

def stillLayout : Layout := ⟨id, Node.Reorders.refl⟩

theorem insert_evicts_oldest_tiny : ∃ answer next,
    tinyRadix.insertWithLogits sha256OfZeros stillLayout [] none oneTokenCut (some [0]) = (.ok answer, next) ∧
      Inserted 6 tinyRadix next [] none [7] answer := by
  have accepted : (tinyRadix.insertWithLogits sha256OfZeros stillLayout [] none oneTokenCut (some [0])).1 = .ok true := by
    decide +kernel
  have fresh : Reachable sha256OfZeros 6 tinyRadix [] := .new rfl
  rcases insert_evicts_oldest fresh stillLayout none oneTokenCut (some [0]) with ⟨-, failure, refused⟩ | inserted
  · rw [refused] at accepted
    cases accepted
  · exact inserted

section Saturated

/-- What the tree keeps of the cut of one token with one logit. -/
def oneTokenResident : ResidentSnapshot where
  position := 1
  tokens := [7]
  elementsPerToken := 1
  layers := (List.range museLayerCount).map fun layer =>
    { layer := UInt32.ofNat layer
      logicalStart := 0
      logicalCount := 1
      encoding := .f16Le
      key := [[0, 0]]
      value := [[0, 0]] }
  lastLogits := some [0]

def zeroPool : ChunkPool := ⟨[(sha256OfZeros [], [[0, 0]])]⟩

/-- The tree that holds that cut alone, at some point of its counters. -/
def filled (clock id : ℕ) : ResidentRadix :=
  { tinyRadix with
    root := .mk [] none (.cons 0 (.leaf (scopedKey none [7]) ⟨id, oneTokenResident, false, clock⟩) .nil)
    chunks := zeroPool
    clock := clock
    nextId := saturatingAdd id 1 }

theorem liveChunks_filled (clock id : ℕ) : liveChunks (filled clock id).root [] = oneTokenResident.chunks := by
  simp [liveChunks, filled, Node.leaf, Node.entries, Forest.entries]

theorem filled_fits (clock id : ℕ) : (filled clock id).evictOne [] = none := by
  have chunks : (zeroPool.liveBytes oneTokenResident.chunks).2 = 2 := by decide
  have bytes : (filled clock id).residentBytes [] = 6 := by
    rw [residentBytes, liveChunks_filled]
    change saturatingAdd (zeroPool.liveBytes oneTokenResident.chunks).2 _ = 6
    rw [chunks]
    rfl
  rw [evictOne, bytes]
  rfl

theorem evict_of_none (turns : ℕ) (stops : radix.evictOne held = none) : evict held turns radix = radix := by
  cases turns with
  | zero => rfl
  | succ turns => rw [evict, stops]

/-- An insertion of that cut which replaces what there was. -/
theorem insert_eq_filled {clock id : ℕ} (cut : chunkSnapshot sha256OfZeros (liveChunks radix.root []) radix.chunks
      oneTokenCut (some [0]) = .ok (zeroPool, oneTokenResident))
    (placed : radix.place stillLayout (scopedKey none oneTokenCut.tokens)
      ⟨radix.nextId, oneTokenResident, oneTokenCut.position % residentCutTokens == 0, saturatingAdd radix.clock 1⟩
      zeroPool = filled clock id) :
    (radix.insertWithLogits sha256OfZeros stillLayout [] none oneTokenCut (some [0])).2 = filled clock id := by
  have valid : oneTokenCut.validate = .ok () := by decide
  have logits : (some [0]).any logitsInvalid = false := by decide
  have tokens : ¬oneTokenCut.tokens.length ≠ oneTokenCut.position := by decide
  have unfolded := insertWithLogits.eq_1 sha256OfZeros stillLayout [] radix none oneTokenCut (some [0])
  simp only [valid, if_neg tokens, logits, Bool.false_eq_true, if_false, cut] at unfolded
  rw [unfolded]
  dsimp only
  rw [placed]
  exact evict_of_none _ (filled_fits clock id)

/-- The first two children of the first node change places. -/
def swapFirst : RadixNode → RadixNode
  | .mk edge own (.cons token (.mk below entry (.cons left leftChild (.cons right rightChild rest))) others) =>
    .mk edge own (.cons token (.mk below entry (.cons right rightChild (.cons left leftChild rest))) others)
  | root => root

def swappedLayout : Layout where
  arrange := swapFirst
  reorders root := by
    unfold swapFirst
    split
    · exact .mk (.cons (.mk .swap) (Forest.Reorders.refl _))
    · exact Node.Reorders.refl _

def otherCut : SessionCacheSnapshot := { oneTokenCut with tokens := [8] }

/-- The insertion of another cut when the counters have saturated. -/
def lastInsertion : Except ResidentError Bool × ResidentRadix :=
  (filled lastTick lastTick).insertWithLogits sha256OfZeros swappedLayout [] none otherCut (some [0])

/-- What the insertions of both cuts come to. -/
private theorem insertions_evaluated :
    chunkSnapshot sha256OfZeros oneTokenResident.chunks zeroPool oneTokenCut (some [0]) = .ok (zeroPool, oneTokenResident) ∧
      chunkSnapshot sha256OfZeros (liveChunks tinyRadix.root []) tinyRadix.chunks oneTokenCut (some [0]) =
        .ok (zeroPool, oneTokenResident) ∧
      lastInsertion.1 = .ok true ∧ (lastInsertion.2.lookup none [8]).1 = none ∧
        (lastInsertion.2.stored none [7]).isSome = true := by
  decide +kernel

theorem insert_filled (clock id : ℕ) :
    ((filled clock id).insertWithLogits sha256OfZeros stillLayout [] none oneTokenCut (some [0])).2 =
      filled (saturatingAdd clock 1) (saturatingAdd id 1) := by
  refine insert_eq_filled ?_ rfl
  rw [liveChunks_filled]
  exact insertions_evaluated.1

/-- After enough insertions of one cut both counters stand at their last value. -/
theorem reachable_filled (turns : ℕ) :
    Reachable sha256OfZeros 6 (filled (min (turns + 1) lastTick) (min (turns + 1) lastTick)) [] := by
  induction turns with
  | zero =>
    have fresh : Reachable sha256OfZeros 6 tinyRadix [] := .new rfl
    have once := fresh.insert stillLayout none oneTokenCut (some [0])
    rwa [insert_eq_filled insertions_evaluated.2.1 rfl] at once
  | succ turns ih =>
    have again := ih.insert stillLayout none oneTokenCut (some [0])
    have tick : saturatingAdd (min (turns + 1) lastTick) 1 = min (turns + 1 + 1) lastTick := by
      rw [saturatingAdd, lastTick]
      lia
    rwa [insert_filled, tick] at again

/-- With saturated counters the new entry goes although an older one stays, and the answer says it stayed. -/
theorem saturated_insert_evicts_newest : Reachable sha256OfZeros 6 (filled lastTick lastTick) [] ∧
    lastInsertion.1 = .ok true ∧ (lastInsertion.2.lookup none [8]).1 = none ∧
      (lastInsertion.2.stored none [7]).isSome = true := by
  have full := reachable_filled (lastTick - 1)
  have last : min (lastTick - 1 + 1) lastTick = lastTick := by
    simp only [lastTick, usizeBound]
    omega
  rw [last] at full
  exact ⟨full, insertions_evaluated.2.2⟩

end Saturated

end ResidentRadix

end Muser.Resident
