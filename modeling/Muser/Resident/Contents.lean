import Muser.Resident.Lookup

/-! # The map behind the radix tree

What the tree stands for is a finite map from identities and tokens to cuts. Insertions update it,
evictions erase from it, and a lookup is a query for the deepest servable prefix. Every sequence of
calls keeps tree and map in step, whatever order the hash maps hand their children out in.
-/

namespace Muser.Resident

open Muser.Engine Muser.Radix

section ScopedKeys

theorem u32FromLeBytes_inj {a b c d e f g h : UInt8} (same : u32FromLeBytes a b c d = u32FromLeBytes e f g h) :
    a = e ∧ b = f ∧ c = g ∧ d = h := by
  have words := congrArg UInt32.toNat same
  have bounds := And.intro a.toNat_lt (And.intro b.toNat_lt (And.intro c.toNat_lt d.toNat_lt))
  have bounds' := And.intro e.toNat_lt (And.intro f.toNat_lt (And.intro g.toNat_lt h.toNat_lt))
  simp only [u32FromLeBytes, UInt32.toNat_ofNat'] at words
  simp only [← UInt8.toNat_inj]
  omega

theorem length_leWords : ∀ (words : ℕ) {bytes : Bytes}, bytes.length = 4 * words → (leWords bytes).length = words
  | 0, bytes, length => by
    rw [List.length_eq_zero_iff.mp (by lia : bytes.length = 0)]
    rfl
  | words + 1, first :: second :: third :: fourth :: rest, length => by
    rw [leWords, List.length_cons, length_leWords words (by simp at length; lia)]
  | _ + 1, [], length => by simp at length
  | _ + 1, [_], length => by simp at length; lia
  | _ + 1, [_, _], length => by simp at length; lia
  | _ + 1, [_, _, _], length => by simp at length; lia

theorem leWords_inj : ∀ (words : ℕ) {left right : Bytes}, left.length = 4 * words → right.length = 4 * words →
    leWords left = leWords right → left = right
  | 0, left, right, leftLength, rightLength, _ => by
    rw [List.length_eq_zero_iff.mp (by lia : left.length = 0), List.length_eq_zero_iff.mp (by lia : right.length = 0)]
  | words + 1, a :: b :: c :: d :: left, e :: f :: g :: h :: right, leftLength, rightLength, same => by
    simp only [leWords, List.cons.injEq] at same
    obtain ⟨rfl, rfl, rfl, rfl⟩ := u32FromLeBytes_inj same.1
    rw [leWords_inj words (by simp at leftLength; lia) (by simp at rightLength; lia) same.2]
  | _ + 1, [], _, length, _, _ => by simp at length
  | _ + 1, [_], _, length, _, _ => by simp at length; lia
  | _ + 1, [_, _], _, length, _, _ => by simp at length; lia
  | _ + 1, [_, _, _], _, length, _, _ => by simp at length; lia
  | _ + 1, _ :: _ :: _ :: _ :: _, [], _, length, _ => by simp at length
  | _ + 1, _ :: _ :: _ :: _ :: _, [_], _, length, _ => by simp at length; lia
  | _ + 1, _ :: _ :: _ :: _ :: _, [_, _], _, length, _ => by simp at length; lia
  | _ + 1, _ :: _ :: _ :: _ :: _, [_, _, _], _, length, _ => by simp at length; lia

theorem length_identityKey (identity : Option IdentityDigest) : (identityKey identity).length = identityKeyWords := by
  cases identity with
  | none => rfl
  | some digest => rw [identityKey, List.length_cons, length_leWords 8 digest.length_bytes]; rfl

/-- The presence tag separates no identity from every digest, and the words tell digests apart. -/
theorem identityKey_inj {left right : Option IdentityDigest} (same : identityKey left = identityKey right) :
    left = right := by
  cases left with
  | none =>
    cases right with
    | none => rfl
    | some digest => simp [identityKey, identityKeyWords, List.replicate_succ] at same
  | some digest =>
    cases right with
    | none => simp [identityKey, identityKeyWords, List.replicate_succ] at same
    | some other =>
      simp only [identityKey, List.cons.injEq, true_and] at same
      have bytes := leWords_inj 8 digest.length_bytes other.length_bytes same
      cases digest
      cases other
      cases bytes
      rfl

variable {identity identity' : Option IdentityDigest} {tokens tokens' : List Token}

theorem scopedKey_inj
    (same : scopedKey identity tokens = scopedKey identity' tokens') : identity = identity' ∧ tokens = tokens' := by
  obtain ⟨identities, tokens⟩ := List.append_inj same (by rw [length_identityKey, length_identityKey])
  exact ⟨identityKey_inj identities, tokens⟩

theorem length_scopedKey (identity : Option IdentityDigest) (tokens : List Token) :
    (scopedKey identity tokens).length = identityKeyWords + tokens.length := by
  rw [scopedKey, List.length_append, length_identityKey]

/-- A prefix of a scoped key that is itself one keeps the identity and cuts the tokens. -/
theorem take_scopedKey_eq {depth : ℕ} (cut : (scopedKey identity tokens).take depth = scopedKey identity' tokens') :
    identityKeyWords ≤ depth ∧ identity = identity' ∧ tokens' = tokens.take (depth - identityKeyWords) := by
  have enough : identityKeyWords ≤ depth := by
    have length := congrArg List.length cut
    rw [List.length_take, length_scopedKey, length_scopedKey] at length
    lia
  rw [scopedKey, List.take_append, length_identityKey,
    List.take_of_length_le (by rw [length_identityKey]; exact enough)] at cut
  obtain ⟨same, rest⟩ := scopedKey_inj cut
  exact ⟨enough, same, rest.symm⟩

theorem take_scopedKey (identity : Option IdentityDigest) (tokens : List Token) (cut : ℕ) :
    (scopedKey identity tokens).take (identityKeyWords + cut) = scopedKey identity (tokens.take cut) := by
  rw [scopedKey, List.take_append, length_identityKey, List.take_of_length_le (by rw [length_identityKey]; lia),
    Nat.add_sub_cancel_left, scopedKey]

end ScopedKeys

/-- A published cut with the logits it was published with. -/
structure Cut where
  snapshot : SessionCacheSnapshot
  lastLogits : Option (List Logit)
deriving DecidableEq

abbrev Contents := Option IdentityDigest → List Token → Option Cut

namespace Contents

def insert (contents : Contents) (identity : Option IdentityDigest) (cut : Cut) : Contents := fun identity' tokens =>
  if identity' = identity ∧ tokens = cut.snapshot.tokens then some cut else contents identity' tokens

def erase (contents : Contents) (identity : Option IdentityDigest) (tokens : List Token) : Contents :=
  fun identity' tokens' => if identity' = identity ∧ tokens' = tokens then none else contents identity' tokens'

/-- A stored cut of the first `length` tokens of a query that may serve it under a cap. -/
def Serves (contents : Contents) (identity : Option IdentityDigest) (query : List Token) (maxCut length : ℕ)
    (cut : Cut) : Prop :=
  length ≤ query.length ∧ length ≤ maxCut ∧ (length = query.length ∨ length % residentCutTokens = 0) ∧
    contents identity (query.take length) = some cut

/-- The answer to a query: the deepest cut that may serve, byte for byte, or nothing if there is none. -/
def Answers (contents : Contents) (identity : Option IdentityDigest) (query : List Token) (maxCut : ℕ) :
    Option ResidentHit → Prop
  | none => ∀ length cut, ¬contents.Serves identity query maxCut length cut
  | some hit => ∃ cut, contents.Serves identity query maxCut hit.cut cut ∧
      (∀ length other, contents.Serves identity query maxCut length other → length ≤ hit.cut) ∧
      (hit.exact = true ↔ hit.cut = query.length) ∧
      hit.snapshot.tokens = query.take hit.cut ∧
      hit.snapshot.materialize = .ok cut.snapshot ∧ hit.snapshot.lastLogits = cut.lastLogits

end Contents

/-- One change of the map. -/
inductive Change where
  | inserted (identity : Option IdentityDigest) (cut : Cut)
  | evicted (identity : Option IdentityDigest) (tokens : List Token)

def Contents.apply (contents : Contents) : Change → Contents
  | .inserted identity cut => contents.insert identity cut
  | .evicted identity tokens => contents.erase identity tokens

/-- The map that a log of changes leaves. -/
def replay (log : List Change) : Contents := log.foldl Contents.apply fun _ _ => none

/-- An entry carries a cut. -/
structure ResidentEntry.Carries (entry : ResidentEntry) (cut : Cut) : Prop where
  materialize : entry.snapshot.materialize = .ok cut.snapshot
  tokens : entry.snapshot.tokens = cut.snapshot.tokens
  lastLogits : entry.snapshot.lastLogits = cut.lastLogits
  ancestorReusable : entry.ancestorReusable = (cut.snapshot.tokens.length % residentCutTokens == 0)

/-- The entry stored for an identity and its tokens. -/
def ResidentRadix.stored (radix : ResidentRadix) (identity : Option IdentityDigest) (tokens : List Token) :
    Option ResidentEntry :=
  radix.root.find (scopedKey identity tokens)

/-- The tree stands for the map. -/
structure ResidentRadix.Represents (radix : ResidentRadix) (contents : Contents) : Prop where
  valid : radix.root.Valid
  keyed : ∀ key entry, radix.root.find key = some entry → ∃ identity tokens, key = scopedKey identity tokens
  absent : ∀ identity tokens, radix.stored identity tokens = none → contents identity tokens = none
  present : ∀ identity tokens entry, radix.stored identity tokens = some entry →
    ∃ cut, contents identity tokens = some cut ∧ cut.snapshot.tokens = tokens ∧ entry.Carries cut

namespace ResidentRadix

variable {radix next : ResidentRadix} {contents : Contents}

theorem represents_new {capacity : ℕ} (fresh : ResidentRadix.new capacity = .ok radix) :
    radix.Represents fun _ _ => none := by
  rw [ResidentRadix.new] at fresh
  split at fresh
  · simp at fresh
  · cases fresh
    have nothing : ∀ key, (Node.empty : RadixNode).find key = none := by
      intro key
      cases key <;> rfl
    exact
      { valid := Node.valid_empty
        keyed := fun key entry found => by simp [nothing] at found
        absent := fun _ _ _ => rfl
        present := fun identity tokens entry found => by simp [ResidentRadix.stored, nothing] at found }

/-- A tree that differs in its access times alone stands for the same map. -/
theorem Represents.retime (represents : radix.Represents contents) (valid : next.root.Valid)
    (same : ∀ key, (next.root.find key).map ResidentEntry.untimed = (radix.root.find key).map ResidentEntry.untimed) :
    next.Represents contents := by
  have back : ∀ {key entry}, next.root.find key = some entry →
      ∃ entry', radix.root.find key = some entry' ∧ entry'.untimed = entry.untimed := by
    intro key entry found
    have mapped := same key
    rw [found, Option.map_some, eq_comm, Option.map_eq_some_iff] at mapped
    exact mapped
  refine ⟨valid, fun key entry found => ?_, fun identity tokens none => ?_, fun identity tokens entry found => ?_⟩
  · obtain ⟨entry', found', -⟩ := back found
    exact represents.keyed key entry' found'
  · apply represents.absent
    have mapped := same (scopedKey identity tokens)
    rw [show next.root.find (scopedKey identity tokens) = .none from none, Option.map_none, eq_comm,
      Option.map_eq_none_iff] at mapped
    exact mapped
  · obtain ⟨entry', found', untimed⟩ := back found
    obtain ⟨cut, stored, tokens, carries⟩ := represents.present identity tokens entry' found'
    have snapshots : entry'.snapshot = entry.snapshot := by
      simpa [ResidentEntry.untimed] using congrArg ResidentEntry.snapshot untimed
    have reusable : entry'.ancestorReusable = entry.ancestorReusable := by
      simpa [ResidentEntry.untimed] using congrArg ResidentEntry.ancestorReusable untimed
    refine ⟨cut, stored, tokens, ?_⟩
    exact
      { materialize := snapshots ▸ carries.materialize
        tokens := snapshots ▸ carries.tokens
        lastLogits := snapshots ▸ carries.lastLogits
        ancestorReusable := reusable ▸ carries.ancestorReusable }

/-- One more entry in the tree, one more cut in the map. -/
theorem Represents.insert (represents : radix.Represents contents) {identity : Option IdentityDigest} {cut : Cut}
    {entry : ResidentEntry} (carries : entry.Carries cut) (valid : next.root.Valid) (finds : ∀ key, next.root.find key =
      if key = scopedKey identity cut.snapshot.tokens then some entry else radix.root.find key) :
    next.Represents (contents.insert identity cut) := by
  refine ⟨valid, fun key other found => ?_, fun identity' tokens none => ?_, fun identity' tokens other found => ?_⟩
  · rw [finds] at found
    split at found
    · next same => exact ⟨identity, cut.snapshot.tokens, same⟩
    · exact represents.keyed key other found
  · rw [stored, finds] at none
    split at none
    · simp at none
    · next other =>
      rw [Contents.insert, if_neg]
      · exact represents.absent identity' tokens none
      · rintro ⟨rfl, rfl⟩
        exact other rfl
  · rw [stored, finds] at found
    split at found
    · next same =>
      cases found
      obtain ⟨rfl, rfl⟩ := scopedKey_inj same
      exact ⟨cut, by rw [Contents.insert, if_pos ⟨rfl, rfl⟩], rfl, carries⟩
    · next differ =>
      obtain ⟨old, held, rest⟩ := represents.present identity' tokens other found
      refine ⟨old, ?_, rest⟩
      rw [Contents.insert, if_neg, held]
      rintro ⟨rfl, rfl⟩
      exact differ rfl

variable {identity : Option IdentityDigest} {lastLogits : Option (List Logit)} {snapshot : SessionCacheSnapshot}

/-- One entry less in the tree, one cut less in the map. -/
theorem Represents.erase (represents : radix.Represents contents) {tokens : List Token} (valid : next.root.Valid)
    (finds : ∀ key, next.root.find key = if key = scopedKey identity tokens then none else radix.root.find key) :
    next.Represents (contents.erase identity tokens) := by
  refine ⟨valid, fun key other found => ?_, fun identity' tokens' none => ?_, fun identity' tokens' other found => ?_⟩
  · rw [finds] at found
    split at found
    · simp at found
    · exact represents.keyed key other found
  · rw [stored, finds] at none
    rw [Contents.erase]
    split
    · rfl
    · next other =>
      apply represents.absent
      rwa [if_neg] at none
      intro same
      exact other (scopedKey_inj same)
  · rw [stored, finds] at found
    split at found
    · simp at found
    · next differ =>
      obtain ⟨old, held, rest⟩ := represents.present identity' tokens' other found
      refine ⟨old, ?_, rest⟩
      rw [Contents.erase, if_neg, held]
      rintro ⟨rfl, rfl⟩
      exact differ rfl

theorem foldl_olderOf {entries : List ResidentEntry} {best : Option (ℕ × ℕ)} {answer : ℕ × ℕ}
    (folded : entries.foldl olderOf best = some answer) :
    best = some answer ∨ ∃ entry ∈ entries, (entry.id, entry.lastAccess) = answer := by
  induction entries generalizing best with
  | nil => exact Or.inl folded
  | cons entry entries ih =>
    rw [List.foldl_cons] at folded
    rcases ih folded with here | ⟨other, member, same⟩
    · cases best with
      | none =>
        cases here
        exact Or.inr ⟨entry, List.mem_cons_self, rfl⟩
      | some best =>
        rw [olderOf] at here
        split at here
        · cases here
          exact Or.inr ⟨entry, List.mem_cons_self, rfl⟩
        · exact Or.inl here
    · exact Or.inr ⟨other, List.mem_cons_of_mem _ member, same⟩

variable {root : RadixNode} {entry : ResidentEntry} {query : List Token}

/-- The entry the loop picks for eviction is in the tree. -/
theorem findLru_mem {id : ℕ} (found : findLru root = some id) :
    root.entries.any (fun entry => entry.id == id) = true := by
  rw [findLru, Option.map_eq_some_iff] at found
  obtain ⟨answer, folded, rfl⟩ := found
  rcases foldl_olderOf folded with none | ⟨entry, member, rfl⟩
  · simp at none
  · rw [List.any_eq_true]
    exact ⟨entry, member, by simp⟩

theorem findLru_isSome (nonempty : root.entries ≠ []) : (findLru root).isSome := by
  have some_of_some : ∀ (entries : List ResidentEntry) (best : ℕ × ℕ), (entries.foldl olderOf (some best)).isSome := by
    intro entries
    induction entries with
    | nil => intro best; rfl
    | cons entry entries ih =>
      intro best
      rw [List.foldl_cons, olderOf]
      split
      · exact ih _
      · exact ih _
  rw [findLru, Option.isSome_map]
  cases entries : root.entries with
  | nil => exact absurd entries nonempty
  | cons entry rest => exact some_of_some rest _

/-- One turn of the loop evicts one entry. -/
theorem evictOne_spec {held : List ResidentSnapshot} (valid : radix.root.Valid)
    (turn : radix.evictOne held = some next) :
    next.root.Valid ∧ next.root.entries.length + 1 = radix.root.entries.length ∧
      next.evictions = saturatingAdd radix.evictions 1 ∧
      ∃ removed entry, radix.root.find removed = some entry ∧ findLru radix.root = some entry.id ∧
        ∀ key, next.root.find key = if key = removed then none else radix.root.find key := by
  rw [evictOne] at turn
  split at turn
  · simp at turn
  · rw [Option.map_eq_some_iff] at turn
    obtain ⟨id, lru, rfl⟩ := turn
    have taken : (radix.root.remove fun entry => entry.id == id).2 = true := by
      rw [Node.remove_snd]
      exact findLru_mem lru
    have removedValid := valid.remove fun entry : ResidentEntry => entry.id == id
    obtain ⟨removed, entry, found, picked, after⟩ := Node.find_remove (fun entry => entry.id == id) valid taken
    refine ⟨removedValid.prune, ?_, rfl, removed, entry, found, by rw [lru, beq_iff_eq.mp picked], fun key => ?_⟩
    · change (removeEntry radix.root id).prune.entries.length + 1 = _
      rw [Node.entries_prune, removeEntry, Node.length_entries_remove _ taken]
    · change (removeEntry radix.root id).prune.find key = _
      rw [Node.find_prune (by exact removedValid), removeEntry, after]

/-- The loop erases what it evicts, changes nothing else, and counts. -/
theorem evict_spec (held : List ResidentSnapshot) (turns : ℕ) {radix : ResidentRadix} {contents : Contents}
    (represents : radix.Represents contents) (few : radix.evictions ≤ usizeBound - 1) :
    ∃ evicted : List (Option IdentityDigest × List Token),
      (evict held turns radix).Represents (evicted.foldl (fun contents key => contents.erase key.1 key.2) contents) ∧
      (evict held turns radix).evictions = min (radix.evictions + evicted.length) (usizeBound - 1) ∧
      ∀ identity tokens, (identity, tokens) ∉ evicted →
        (evict held turns radix).stored identity tokens = radix.stored identity tokens := by
  induction turns generalizing radix contents with
  | zero => exact ⟨[], represents, (min_eq_left few).symm, fun _ _ _ => rfl⟩
  | succ turns ih =>
    rw [evict]
    split
    · exact ⟨[], represents, (min_eq_left few).symm, fun _ _ _ => rfl⟩
    · next next turn =>
      obtain ⟨valid, -, count, removed, entry, found, -, finds⟩ := evictOne_spec represents.valid turn
      obtain ⟨identity, tokens, rfl⟩ := represents.keyed removed entry found
      have counted : next.evictions ≤ usizeBound - 1 := by
        rw [count]
        exact min_le_right _ _
      obtain ⟨evicted, after, total, others⟩ := ih (represents.erase valid finds) counted
      refine ⟨(identity, tokens) :: evicted, after, ?_, fun identity' tokens' kept => ?_⟩
      · rw [total, count, saturatingAdd, List.length_cons]
        generalize usizeBound - 1 = limit
        lia
      · rw [List.mem_cons, not_or] at kept
        rw [others identity' tokens' kept.2, stored, finds, if_neg, stored]
        intro same
        obtain ⟨rfl, rfl⟩ := scopedKey_inj same
        exact kept.1 rfl

/-- As many turns as there are entries run the loop to its end. -/
theorem evict_done (held : List ResidentSnapshot) {turns : ℕ} {radix : ResidentRadix} (valid : radix.root.Valid)
    (enough : radix.root.entries.length ≤ turns) : (evict held turns radix).evictOne held = none := by
  induction turns generalizing radix with
  | zero =>
    have empty : radix.root.entries = [] := List.length_eq_zero_iff.mp (by lia)
    rw [evict, evictOne, findLru, empty]
    split <;> rfl
  | succ turns ih =>
    rw [evict]
    split
    · next stops => exact stops
    · next next turn =>
      obtain ⟨nextValid, fewer, -⟩ := evictOne_spec valid turn
      exact ih nextValid (by lia)

/-- Snapshots and logits that an insertion accepts. -/
def Admits (snapshot : SessionCacheSnapshot) (lastLogits : Option (List Logit)) : Prop :=
  snapshot.validate = .ok () ∧ lastLogits.any logitsInvalid = false

theorem insertWithLogits_refused (sha256 : Bytes → Bytes) (layout : Layout) (held : List ResidentSnapshot)
    (radix : ResidentRadix) (identity : Option IdentityDigest) (refused : ¬Admits snapshot lastLogits) :
    ∃ failure, radix.insertWithLogits sha256 layout held identity snapshot lastLogits = (.error failure, radix) := by
  rw [insertWithLogits]
  split
  · exact ⟨_, rfl⟩
  · next valid =>
    obtain ⟨-, tokens, -⟩ := SessionCacheSnapshot.validate_ok valid
    rw [if_neg (by simpa using tokens), if_pos]
    · exact ⟨_, rfl⟩
    · by_contra accepted
      exact refused ⟨valid, by simpa using accepted⟩

/-- What an accepted insertion does: it cuts the snapshot, places an entry that carries it, and runs the loop. -/
theorem insertWithLogits_eq (sha256 : Bytes → Bytes) (layout : Layout) (held : List ResidentSnapshot)
    (radix : ResidentRadix) (identity : Option IdentityDigest)
    (admits : Admits snapshot lastLogits) : ∃ pool entry inserted,
      chunkSnapshot sha256 (liveChunks radix.root held) radix.chunks snapshot lastLogits = .ok (pool, entry.snapshot) ∧
      entry.id = radix.nextId ∧ entry.lastAccess = saturatingAdd radix.clock 1 ∧ entry.Carries ⟨snapshot, lastLogits⟩ ∧
      inserted = radix.place layout (scopedKey identity snapshot.tokens) entry pool ∧
      radix.insertWithLogits sha256 layout held identity snapshot lastLogits =
        (.ok (findId (evict held inserted.root.entries.length inserted).root radix.nextId),
          evict held inserted.root.entries.length inserted) := by
  obtain ⟨valid, logits⟩ := admits
  obtain ⟨-, tokens, -⟩ := SessionCacheSnapshot.validate_ok valid
  obtain ⟨pool, resident, chunked, materialize, position, sameTokens, sameLogits⟩ :=
    chunkSnapshot_eq_ok sha256 (liveChunks radix.root held) radix.chunks valid lastLogits
  refine ⟨pool, ⟨radix.nextId, resident, snapshot.position % residentCutTokens == 0, saturatingAdd radix.clock 1⟩, _,
    chunked, rfl, rfl, ⟨materialize, sameTokens, sameLogits, by rw [tokens]⟩, rfl, ?_⟩
  have unfolded := insertWithLogits.eq_1 sha256 layout held radix identity snapshot lastLogits
  simp only [valid, if_neg (not_not.mpr tokens), logits, Bool.false_eq_true, if_false, chunked] at unfolded
  exact unfolded

theorem insertWithLogits_admitted (sha256 : Bytes → Bytes) (layout : Layout) (held : List ResidentSnapshot)
    (radix : ResidentRadix) (identity : Option IdentityDigest) (admits : Admits snapshot lastLogits) :
    ∃ resident, (radix.insertWithLogits sha256 layout held identity snapshot lastLogits).1 = .ok resident := by
  obtain ⟨_, _, _, -, -, -, -, -, is⟩ := insertWithLogits_eq sha256 layout held radix identity admits
  exact ⟨_, by rw [is]⟩

/-- An accepted insertion updates the map and erases what it evicts; no other entry changes, and its own
entry stands unless it is evicted too. -/
theorem insertWithLogits_spec (sha256 : Bytes → Bytes) (layout : Layout) (held : List ResidentSnapshot)
    (represents : radix.Represents contents) (few : radix.evictions ≤ usizeBound - 1) (identity : Option IdentityDigest)
    (admits : Admits snapshot lastLogits) :
    ∃ evicted : List (Option IdentityDigest × List Token),
      (radix.insertWithLogits sha256 layout held identity snapshot lastLogits).2.Represents
        (evicted.foldl (fun contents key => contents.erase key.1 key.2) (contents.insert identity ⟨snapshot, lastLogits⟩)) ∧
      (radix.insertWithLogits sha256 layout held identity snapshot lastLogits).2.evictions =
        min (radix.evictions + evicted.length) (usizeBound - 1) ∧
      ((identity, snapshot.tokens) ∉ evicted → ∃ entry,
        (radix.insertWithLogits sha256 layout held identity snapshot lastLogits).2.stored identity snapshot.tokens =
          some entry ∧ entry.Carries ⟨snapshot, lastLogits⟩) ∧
      (∀ identity' tokens, (identity', tokens) ∉ evicted → (identity', tokens) ≠ (identity, snapshot.tokens) →
        (radix.insertWithLogits sha256 layout held identity snapshot lastLogits).2.stored identity' tokens =
          radix.stored identity' tokens) := by
  obtain ⟨pool, entry, inserted, -, -, -, carries, insertedEq, unfolded⟩ :=
    insertWithLogits_eq sha256 layout held radix identity admits
  rw [unfolded]
  have insertedValid := Node.valid_insert represents.valid (scopedKey identity snapshot.tokens) entry
  have reorders := layout.reorders (radix.root.insert (scopedKey identity snapshot.tokens) entry)
  have finds : ∀ key, inserted.root.find key =
      if key = scopedKey identity snapshot.tokens then some entry else radix.root.find key := by
    subst insertedEq
    intro key
    exact (reorders.find insertedValid key).trans (Node.find_insert represents.valid _ entry key)
  have insertedRepresents : inserted.Represents (contents.insert identity ⟨snapshot, lastLogits⟩) := by
    refine represents.insert carries ?_ finds
    subst insertedEq
    exact reorders.valid insertedValid
  have evictions : inserted.evictions = radix.evictions := by
    subst insertedEq
    rfl
  obtain ⟨evicted, after, count, others⟩ :=
    evict_spec held inserted.root.entries.length insertedRepresents (by rwa [evictions])
  refine ⟨evicted, after, by rw [count, evictions], fun kept => ⟨entry, ?_, carries⟩, fun identity' tokens' kept other => ?_⟩
  · rw [others identity snapshot.tokens kept, stored, finds, if_pos rfl]
  · rw [others identity' tokens' kept, stored, finds, if_neg, stored]
    intro same
    obtain ⟨rfl, rfl⟩ := scopedKey_inj same
    exact other rfl

/-- What the query of a lookup meets in the tree, in terms of the map. -/
theorem Represents.storedAt_iff (represents : radix.Represents contents) {depth : ℕ} :
    StoredAt radix.root (scopedKey identity query) 0 depth entry ↔
      ∃ length, depth = identityKeyWords + length ∧ length ≤ query.length ∧
        radix.stored identity (query.take length) = some entry := by
  rw [StoredAt, Nat.sub_zero, Nat.zero_add, length_scopedKey]
  constructor
  · rintro ⟨-, upper, found⟩
    obtain ⟨identity', tokens, key⟩ := represents.keyed _ entry found
    obtain ⟨enough, -⟩ := take_scopedKey_eq key
    obtain ⟨length, rfl⟩ := Nat.exists_eq_add_of_le enough
    rw [take_scopedKey] at found
    exact ⟨length, rfl, by lia, found⟩
  · rintro ⟨length, rfl, short, found⟩
    rw [take_scopedKey]
    exact ⟨Nat.zero_le _, by lia, found⟩

/-- The entries that may serve a query are the cuts that may. -/
theorem Represents.serves_iff (represents : radix.Represents contents)
    (maxCut : ℕ) {length : ℕ} (short : length ≤ query.length)
    (found : radix.stored identity (query.take length) = some entry) :
    ∃ cut, contents identity (query.take length) = some cut ∧ entry.Carries cut ∧
      cut.snapshot.tokens = query.take length ∧
      (entry.Serves (identityKeyWords + query.length) (identityKeyWords + maxCut) (identityKeyWords + length) ↔
        contents.Serves identity query maxCut length cut) := by
  obtain ⟨cut, held, tokens, carries⟩ := represents.present identity _ entry found
  refine ⟨cut, held, carries, tokens, ?_⟩
  have reusable : entry.ancestorReusable = true ↔ length % residentCutTokens = 0 := by
    rw [carries.ancestorReusable, tokens, List.length_take_of_le short, beq_iff_eq]
  rw [ResidentEntry.Serves, Contents.Serves, reusable, Nat.add_le_add_iff_left, Nat.add_left_cancel_iff]
  exact ⟨fun ⟨capped, rule⟩ => ⟨short, capped, rule, held⟩, fun ⟨_, capped, rule, _⟩ => ⟨capped, rule⟩⟩

/-- A lookup answers the query of the map. -/
theorem lookupCapped_answers (represents : radix.Represents contents) (identity : Option IdentityDigest)
    (query : List Token) (maxCut : ℕ) :
    contents.Answers identity query maxCut (radix.lookupCapped identity query maxCut).1 := by
  have deepest := longestMatch_deepest (saturatingAdd radix.clock 1) (identityKeyWords + maxCut) represents.valid
    (scopedKey identity query) 0 none
  rw [Nat.zero_add, length_scopedKey] at deepest
  change contents.Answers identity query maxCut
    (longestMatch (saturatingAdd radix.clock 1) (identityKeyWords + maxCut) radix.root (scopedKey identity query) 0 none).2
  -- a cut of the map that may serve is an entry of the tree that may
  have stored_of_serves : ∀ {length cut}, contents.Serves identity query maxCut length cut →
      ∃ entry, StoredAt radix.root (scopedKey identity query) 0 (identityKeyWords + length) entry ∧
        entry.Serves (identityKeyWords + query.length) (identityKeyWords + maxCut) (identityKeyWords + length) := by
    intro length cut serves
    obtain ⟨short, -, -, held⟩ := id serves
    cases found : radix.stored identity (query.take length) with
    | none => simp [represents.absent _ _ found] at held
    | some entry =>
      obtain ⟨other, held', -, -, same⟩ := represents.serves_iff maxCut short found
      cases held.symm.trans held'
      exact ⟨entry, represents.storedAt_iff.mpr ⟨length, rfl, short, found⟩, same.mpr serves⟩
  rcases deepest with ⟨none, answer⟩ | ⟨depth, entry, stored, serves, most, answer⟩
  · rw [answer]
    intro length cut may
    obtain ⟨entry, stored, serves⟩ := stored_of_serves may
    exact none _ entry stored serves
  · obtain ⟨length, rfl, short, found⟩ := represents.storedAt_iff.mp stored
    obtain ⟨cut, -, carries, tokens, same⟩ := represents.serves_iff maxCut short found
    rw [answer, Nat.add_sub_cancel_left]
    refine ⟨cut, same.mp serves, fun other cut' may => ?_, ?_, ?_, carries.materialize, carries.lastLogits⟩
    · obtain ⟨entry', stored', serves'⟩ := stored_of_serves may
      have deeper := most _ entry' stored' serves'
      change other ≤ length
      omega
    · rw [beq_iff_eq, Nat.add_left_cancel_iff]
    · rw [carries.tokens, tokens]

theorem represents_lookupCapped (represents : radix.Represents contents) (identity : Option IdentityDigest)
    (query : List Token) (maxCut : ℕ) : (radix.lookupCapped identity query maxCut).2.Represents contents :=
  represents.retime (valid_longestMatch _ _ represents.valid _ _ _) fun key => find_longestMatch _ _ radix.root _ _ _ key

end ResidentRadix

end Muser.Resident
