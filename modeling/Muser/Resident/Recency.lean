import Muser.Lib.RadixShape
import Muser.Resident.Contents

/-! # Access times and identifiers

A walk stamps the entries it serves with the clock and leaves the rest alone. Access times never pass
the clock, and two entries have different identifiers until the counters saturate; from then on they
may only agree when both carry the last access time there is.
-/

namespace Muser.Resident

open Muser.Engine Muser.Radix

section Walk

theorem longestMatchUnder_isEmpty (now maxDepth : ℕ) (forest : RadixForest) (first : UInt32) (rest : List UInt32)
    (depth : ℕ) (best : Option ResidentHit) :
    (longestMatchUnder now maxDepth forest first rest depth best).1.isEmpty = forest.isEmpty := by
  cases forest with
  | nil => rfl
  | cons token child others =>
    rw [longestMatchUnder]
    split
    · dsimp only
      split <;> rfl
    · rfl

theorem longestMatch_carries (now maxDepth : ℕ) (node : RadixNode) (remaining : List UInt32) (depth : ℕ)
    (best : Option ResidentHit) : (longestMatch now maxDepth node remaining depth best).1.carries = node.carries := by
  obtain ⟨edge, own, children⟩ := node
  have same : (serveEntry now maxDepth remaining depth own best).1.isSome = own.isSome := by
    rcases serveEntry_cases now maxDepth remaining depth own best with served | served <;> simp [served]
  cases remaining with
  | nil =>
    rw [longestMatch]
    split <;> simp only [Node.carries, Node.entry, Node.children, same]
  | cons first rest =>
    rw [longestMatch]
    dsimp only
    split <;> simp only [Node.carries, Node.entry, Node.children, same, longestMatchUnder_isEmpty]

mutual

theorem occupied_longestMatch (now maxDepth : ℕ) : ∀ {node : RadixNode}, node.Occupied →
    ∀ (remaining : List UInt32) (depth : ℕ) (best : Option ResidentHit),
      (longestMatch now maxDepth node remaining depth best).1.Occupied
  | .mk edge own children, occupied, remaining, depth, best => by
    rw [Node.Occupied] at occupied
    cases remaining with
    | nil =>
      rw [longestMatch]
      split <;> exact occupied
    | cons first rest =>
      rw [longestMatch]
      dsimp only
      split
      · exact occupied
      · exact occupied_longestMatchUnder now maxDepth occupied first rest depth _

theorem occupied_longestMatchUnder (now maxDepth : ℕ) : ∀ {forest : RadixForest}, forest.Occupied →
    ∀ (first : UInt32) (rest : List UInt32) (depth : ℕ) (best : Option ResidentHit),
      (longestMatchUnder now maxDepth forest first rest depth best).1.Occupied
  | .nil, _, _, _, _, _ => trivial
  | .cons token child others, occupied, first, rest, depth, best => by
    obtain ⟨carries, inside, beside⟩ := occupied
    rw [longestMatchUnder]
    split
    · dsimp only
      split
      · exact ⟨by rwa [longestMatch_carries], occupied_longestMatch now maxDepth inside _ _ _, beside⟩
      · exact ⟨carries, inside, beside⟩
    · exact ⟨carries, inside, occupied_longestMatchUnder now maxDepth beside first rest depth best⟩

end

end Walk

namespace ResidentRadix

/-- The last value of a counter. -/
abbrev lastTick : ℕ := usizeBound - 1

/-- The access times and identifiers of a tree agree with its counters. -/
structure Stamped (radix : ResidentRadix) : Prop where
  valid : radix.root.Valid
  clock : radix.clock ≤ lastTick
  nextId : radix.nextId ≤ lastTick
  behind : radix.nextId ≤ radix.clock + 1
  stamp : ∀ key entry, radix.root.find key = some entry → entry.lastAccess ≤ radix.clock
  id : ∀ key entry, radix.root.find key = some entry →
    entry.id < radix.nextId ∨ (entry.id = lastTick ∧ entry.lastAccess = lastTick)
  apart : ∀ key key' entry entry', radix.root.find key = some entry → radix.root.find key' = some entry' →
    entry.id = entry'.id → key = key' ∨ (entry.lastAccess = lastTick ∧ entry'.lastAccess = lastTick)

variable {radix next : ResidentRadix}

theorem saturatingAdd_le_lastTick (left right : ℕ) : saturatingAdd left right ≤ lastTick := min_le_right _ _

theorem le_saturatingAdd {left : ℕ} (right : ℕ) (bound : left ≤ lastTick) : left ≤ saturatingAdd left right :=
  le_min (Nat.le_add_right _ _) bound

theorem Stamped.new {capacity : ℕ} (fresh : ResidentRadix.new capacity = .ok radix) : Stamped radix := by
  rw [ResidentRadix.new] at fresh
  split at fresh
  · cases fresh
  · cases fresh
    have nothing : ∀ key, (Node.empty : RadixNode).find key = none := by
      intro key
      cases key <;> rfl
    exact
      { valid := Node.valid_empty
        clock := Nat.zero_le _
        nextId := by simp only [lastTick, usizeBound]; omega
        behind := le_refl _
        stamp := fun key entry found => by simp [nothing] at found
        id := fun key entry found => by simp [nothing] at found
        apart := fun key key' entry entry' found => by simp [nothing] at found }

/-- Fewer entries under the same counters. -/
theorem Stamped.of_find (stamped : Stamped radix) (valid : next.root.Valid) (clock : next.clock = radix.clock)
    (nextId : next.nextId = radix.nextId)
    (finds : ∀ key entry, next.root.find key = some entry → radix.root.find key = some entry) : Stamped next where
  valid
  clock := clock ▸ stamped.clock
  nextId := nextId ▸ stamped.nextId
  behind := by rw [clock, nextId]; exact stamped.behind
  stamp key entry found := clock ▸ stamped.stamp key entry (finds key entry found)
  id key entry found := nextId ▸ stamped.id key entry (finds key entry found)
  apart key key' entry entry' found found' :=
    stamped.apart key key' entry entry' (finds key entry found) (finds key' entry' found')

/-- A walk with the next clock. -/
theorem Stamped.lookupCapped (stamped : Stamped radix) (identity : Option IdentityDigest) (tokens : List Token)
    (maxCut : ℕ) : Stamped (radix.lookupCapped identity tokens maxCut).2 := by
  have later : radix.clock ≤ saturatingAdd radix.clock 1 := le_saturatingAdd 1 stamped.clock
  -- what an entry of the new tree was before the walk
  have before : ∀ key entry, (radix.lookupCapped identity tokens maxCut).2.root.find key = some entry →
      ∃ old, radix.root.find key = some old ∧ entry.id = old.id ∧ entry.lastAccess ≤ saturatingAdd radix.clock 1 ∧
        (old.lastAccess = lastTick → entry.lastAccess = lastTick) := by
    intro key entry found
    change (longestMatch (saturatingAdd radix.clock 1) (identityKeyWords + maxCut) radix.root
      (scopedKey identity tokens) 0 none).1.find key = some entry at found
    rcases find_longestMatch_cases (saturatingAdd radix.clock 1) (identityKeyWords + maxCut) radix.root
      (scopedKey identity tokens) 0 none key with same | touched
    · rw [found] at same
      exact ⟨entry, same.symm, rfl, (stamped.stamp key entry same.symm).trans later, fun last => last⟩
    · rw [found, eq_comm, Option.map_eq_some_iff] at touched
      obtain ⟨old, here, rfl⟩ := touched
      refine ⟨old, here, rfl, le_refl _, fun last => ?_⟩
      have reached := stamped.stamp key old here
      exact le_antisymm (saturatingAdd_le_lastTick _ _) (last ▸ reached.trans later)
  exact
    { valid := valid_longestMatch _ _ stamped.valid _ _ _
      clock := saturatingAdd_le_lastTick _ _
      nextId := stamped.nextId
      behind := stamped.behind.trans (Nat.add_le_add_right later 1)
      stamp := fun key entry found => by
        obtain ⟨old, -, -, bound, -⟩ := before key entry found
        exact bound
      id := fun key entry found => by
        obtain ⟨old, here, same, -, last⟩ := before key entry found
        rw [same]
        exact (stamped.id key old here).imp_right fun ⟨id, stamp⟩ => ⟨id, last stamp⟩
      apart := fun key key' entry entry' found found' same => by
        obtain ⟨old, here, id, -, last⟩ := before key entry found
        obtain ⟨old', here', id', -, last'⟩ := before key' entry' found'
        exact (stamped.apart key key' old old' here here' (by rw [← id, ← id', same])).imp_right
          fun ⟨stamp, stamp'⟩ => ⟨last stamp, last' stamp'⟩ }

/-- A new entry at one key, with the next clock and the next identifier. -/
theorem Stamped.place (stamped : Stamped radix) (layout : Layout) (key : List UInt32) {entry : ResidentEntry}
    (chunks : ChunkPool) (id : entry.id = radix.nextId) (stamp : entry.lastAccess = saturatingAdd radix.clock 1) :
    Stamped (radix.place layout key entry chunks) ∧
      ∀ other, (radix.place layout key entry chunks).root.find other =
        if other = key then some entry else radix.root.find other := by
  have insertedValid := Node.valid_insert stamped.valid key entry
  have reorders := layout.reorders (radix.root.insert key entry)
  have finds : ∀ other, (radix.place layout key entry chunks).root.find other =
      if other = key then some entry else radix.root.find other := fun other =>
    (reorders.find insertedValid other).trans (Node.find_insert stamped.valid _ entry other)
  have later : radix.clock ≤ saturatingAdd radix.clock 1 := le_saturatingAdd 1 stamped.clock
  -- once the identifiers are used up, the clock is too
  have saturated : radix.nextId = lastTick → saturatingAdd radix.clock 1 = lastTick := by
    intro last
    have bound := stamped.behind
    rw [last] at bound
    exact min_eq_right bound
  have newId : entry.id < saturatingAdd radix.nextId 1 ∨ (entry.id = lastTick ∧ entry.lastAccess = lastTick) := by
    rcases Nat.lt_or_eq_of_le stamped.nextId with small | last
    · refine Or.inl ?_
      rw [id, saturatingAdd, lt_min_iff]
      exact ⟨Nat.lt_succ_self _, small⟩
    · exact Or.inr ⟨id.trans last, stamp.trans (saturated last)⟩
  have oldId : ∀ other old, radix.root.find other = some old →
      old.id < saturatingAdd radix.nextId 1 ∨ (old.id = lastTick ∧ old.lastAccess = lastTick) := by
    intro other old found
    exact (stamped.id other old found).imp_left fun small => small.trans_le (le_saturatingAdd 1 stamped.nextId)
  have apart : ∀ other old, radix.root.find other = some old → old.id = entry.id →
      old.lastAccess = lastTick ∧ entry.lastAccess = lastTick := by
    intro other old found same
    rcases stamped.id other old found with small | ⟨last, oldStamp⟩
    · omega
    · have used : radix.nextId = lastTick := by rw [← id, ← same, last]
      exact ⟨oldStamp, stamp.trans (saturated used)⟩
  refine ⟨?_, finds⟩
  exact
    { valid := reorders.valid insertedValid
      clock := saturatingAdd_le_lastTick _ _
      nextId := saturatingAdd_le_lastTick _ _
      behind := by
        have bound := stamped.behind
        change saturatingAdd radix.nextId 1 ≤ saturatingAdd radix.clock 1 + 1
        rw [saturatingAdd, saturatingAdd]
        omega
      stamp := fun other found' found => by
        rw [finds] at found
        split at found
        · cases found
          exact stamp.le
        · exact (stamped.stamp other found' found).trans later
      id := fun other found' found => by
        rw [finds] at found
        split at found
        · cases found
          exact newId
        · exact oldId other found' found
      apart := fun left right leftEntry rightEntry leftFound rightFound same => by
        rw [finds] at leftFound rightFound
        split at leftFound
        · next leftKey =>
          cases leftFound
          split at rightFound
          · next rightKey => exact Or.inl (leftKey.trans rightKey.symm)
          · exact Or.inr (apart right rightEntry rightFound same.symm).symm
        · split at rightFound
          · cases rightFound
            exact Or.inr (apart left leftEntry leftFound same)
          · exact stamped.apart left right leftEntry rightEntry leftFound rightFound same }

/-- The oldest entry goes first: the fold ends below every access time it saw. -/
theorem foldl_olderOf_le {entries : List ResidentEntry} {best : Option (ℕ × ℕ)} {answer : ℕ × ℕ}
    (folded : entries.foldl olderOf best = some answer) :
    (∀ least, best = some least → answer.2 ≤ least.2) ∧ ∀ entry ∈ entries, answer.2 ≤ entry.lastAccess := by
  induction entries generalizing best with
  | nil =>
    rw [List.foldl_nil] at folded
    exact ⟨fun least same => by rw [folded, Option.some.injEq] at same; rw [same], by simp⟩
  | cons entry entries ih =>
    rw [List.foldl_cons] at folded
    obtain ⟨bound, others⟩ := ih folded
    have step : (∀ least, best = some least → answer.2 ≤ least.2) ∧ answer.2 ≤ entry.lastAccess := by
      cases best with
      | none => exact ⟨by simp, bound (entry.id, entry.lastAccess) rfl⟩
      | some least =>
        obtain ⟨id, age⟩ := least
        rw [olderOf] at bound
        split at bound
        · next younger =>
          have here := bound _ rfl
          exact ⟨fun least same => by cases same; exact here.trans younger.le, here⟩
        · next older =>
          have here := bound _ rfl
          exact ⟨fun least same => by cases same; exact here, here.trans (Nat.le_of_not_lt older)⟩
    refine ⟨step.1, fun other member => ?_⟩
    rcases List.mem_cons.mp member with rfl | rest
    · exact step.2
    · exact others other rest

/-- One turn of the loop takes an entry that no other entry is older than. -/
theorem evictOne_oldest {held : List ResidentSnapshot} (stamped : Stamped radix)
    (turn : radix.evictOne held = some next) :
    Stamped next ∧ next.root.Occupied ∧ next.root.entries.length + 1 = radix.root.entries.length ∧
      ∃ removed entry, radix.root.find removed = some entry ∧
        (∀ key, next.root.find key = if key = removed then none else radix.root.find key) ∧
        ∀ key other, radix.root.find key = some other → entry.lastAccess ≤ other.lastAccess := by
  obtain ⟨valid, fewer, -, removed, entry, found, lru, finds⟩ := evictOne_spec stamped.valid turn
  have counters : next.clock = radix.clock ∧ next.nextId = radix.nextId ∧ next.root.Occupied := by
    rw [evictOne] at turn
    split at turn
    · cases turn
    · obtain ⟨id, -, rfl⟩ := Option.map_eq_some_iff.mp turn
      exact ⟨rfl, rfl, Node.occupied_prune _⟩
  refine ⟨stamped.of_find valid counters.1 counters.2.1 fun key other here => ?_, counters.2.2, fewer, removed, entry,
    found, finds, fun key other here => ?_⟩
  · rw [finds] at here
    split at here
    · cases here
    · exact here
  · -- the entry the search stopped at has the same identifier as the removed one
    rw [findLru, Option.map_eq_some_iff] at lru
    obtain ⟨answer, folded, id⟩ := lru
    have least := (foldl_olderOf_le folded).2 other (Node.mem_entries_of_find here)
    obtain ⟨oldest, member, same⟩ : ∃ oldest ∈ radix.root.entries, (oldest.id, oldest.lastAccess) = answer := by
      rcases foldl_olderOf folded with none | found
      · cases none
      · exact found
    obtain ⟨place, stored⟩ := Node.exists_find_of_mem stamped.valid member
    subst same
    have sameAge : entry.lastAccess = oldest.lastAccess := by
      rcases stamped.apart removed place entry oldest found stored id.symm with rfl | ⟨last, last'⟩
      · rw [found, Option.some.injEq] at stored
        rw [stored]
      · rw [last, last']
    exact sameAge ▸ least

end ResidentRadix

end Muser.Resident
