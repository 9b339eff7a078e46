import Mathlib.Data.List.Induction
import Mathlib.Data.List.Nodup
import Mathlib.Data.List.Basic

/-! # Chains of hashed links

A chain starts at a given head, and every link names the head before it. When a head determines
the link's base and never equals the start, the chain cannot return to a head it has passed: its
heads are pairwise distinct, and so are its bases.
-/

namespace Muser.HashChain

variable {Link Head : Type} (base head : Link → Head)

/-- Every link names the head of its predecessor, the first one the start. -/
def Chained : Head → List Link → Prop
  | _, [] => True
  | start, link :: rest => base link = start ∧ Chained (head link) rest

/-- The heads of a chain, its start first. -/
def heads (start : Head) (links : List Link) : List Head := start :: links.map head

/-- The head at which a chain stands. -/
def tip (start : Head) (links : List Link) : Head := links.foldl (fun _ link => head link) start

variable {base head}

variable {links : List Link} {start : Head}

theorem chained_concat {link : Link} :
    Chained base head start (links ++ [link]) ↔ Chained base head start links ∧ base link = tip head start links := by
  induction links generalizing start with
  | nil => simp [Chained, tip]
  | cons first rest ih =>
    rw [List.cons_append, Chained, Chained, ih, and_assoc]
    rfl

theorem heads_concat (start : Head) (links : List Link) (link : Link) :
    heads head start (links ++ [link]) = heads head start links ++ [head link] := by
  simp [heads]

/-- The bases are the heads without the last one. -/
theorem heads_eq_bases_concat (chained : Chained base head start links) :
    heads head start links = links.map base ++ [tip head start links] := by
  induction links generalizing start with
  | nil => rfl
  | cons first rest ih =>
    have tail := ih chained.2
    rw [heads, List.map_cons, List.map_cons, chained.1, List.cons_append]
    exact congrArg _ tail

/-- Without collisions a chain never returns to a head. -/
theorem heads_nodup (chained : Chained base head start links)
    (determines : ∀ left ∈ links, ∀ right ∈ links, head left = head right → base left = base right)
    (leaves : ∀ link ∈ links, head link ≠ start) : (heads head start links).Nodup := by
  induction links using List.reverseRecOn with
  | nil => simp [heads]
  | append_singleton links link ih =>
    obtain ⟨earlier, extends_⟩ := chained_concat.mp chained
    have nodup := ih earlier
      (fun left leftIn right rightIn => determines left (by simp [leftIn]) right (by simp [rightIn]))
      (fun other member => leaves other (by simp [member]))
    rw [heads_concat, List.nodup_append]
    refine ⟨nodup, by simp, fun seen seenIn last lastIn => ?_⟩
    obtain rfl : last = head link := by simpa using lastIn
    rintro rfl
    rcases List.mem_cons.mp seenIn with returned | repeated
    · exact leaves link (by simp) returned
    · obtain ⟨other, member, same⟩ := List.mem_map.mp repeated
      -- The repeated head would give the tip a second place among the bases.
      have bases := determines other (by simp [member]) link (by simp) same
      have split := heads_eq_bases_concat earlier
      rw [split, List.nodup_append] at nodup
      exact nodup.2.2 (base other) (List.mem_map_of_mem member) (tip head start links) (by simp)
        (bases.trans extends_)

theorem tip_notMem_bases (chained : Chained base head start links)
    (nodup : (heads head start links).Nodup) : tip head start links ∉ links.map base := by
  rw [heads_eq_bases_concat chained, List.nodup_append] at nodup
  exact fun member => nodup.2.2 _ member _ (by simp) rfl

theorem bases_nodup (chained : Chained base head start links)
    (nodup : (heads head start links).Nodup) : (links.map base).Nodup := by
  rw [heads_eq_bases_concat chained, List.nodup_append] at nodup
  exact nodup.1

end Muser.HashChain
