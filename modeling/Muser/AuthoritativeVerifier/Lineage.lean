import Muser.Lib.HashChain
import Muser.AuthoritativeVerifier.Steps

/-! # The lineage of committed results

The journal's parent is what the activated commits make of the session's genesis state, one after
another. Every link of a lineage names the parent before it, which bounds the transcript at every
point and, without collisions, keeps all heads distinct.
-/

namespace Muser.Verifier

variable {p : Primitives} {session : SessionCoreV2}

/-- The parent of the first round. -/
def Parent.genesis (session : SessionCoreV2) : Parent where
  evaluatedTokens := session.initialEvaluatedTokens
  outputHeight := session.initialOutputHeight
  headSha256 := session.genesisHeadSha256
  frontier := session.initialFrontier
  samplerState := session.initialSamplerState

/-- The parent after a list of commits. -/
def Parent.after (parent : Parent) (commits : List CommitRecordV2) : Parent :=
  commits.foldl (fun parent commit => parent.advance commit.result) parent

@[simp] theorem Parent.after_concat (parent : Parent) (commits : List CommitRecordV2) (commit : CommitRecordV2) :
    parent.after (commits ++ [commit]) = (parent.after commits).advance commit.result := by
  simp [Parent.after]

/-- One link: a round for this parent and a result that answers it. -/
structure Link (p : Primitives) (session : SessionCoreV2) (parent : Parent) (commit : CommitRecordV2) : Prop where
  accepts : parent.Accepts p commit.request
  historical : commit.request.core.Historical p session
  answers : commit.result.Answers p commit.request session

/-- Consecutive links from a parent. -/
def Lineage (p : Primitives) (session : SessionCoreV2) : Parent → List CommitRecordV2 → Prop
  | _, [] => True
  | parent, commit :: rest => Link p session parent commit ∧ Lineage p session (parent.advance commit.result) rest

variable {commits : List CommitRecordV2} {parent : Parent} {commit : CommitRecordV2}

theorem lineage_concat :
    Lineage p session parent (commits ++ [commit]) ↔
      Lineage p session parent commits ∧ Link p session (parent.after commits) commit := by
  induction commits generalizing parent with
  | nil => simp [Lineage, Parent.after]
  | cons first rest ih =>
    rw [List.cons_append, Lineage, Lineage, ih, and_assoc]
    rfl

/-- The bounds that hold at every parent of a session. -/
structure Parent.Sound (session : SessionCoreV2) (parent : Parent) : Prop where
  startsWith : session.initialEvaluatedTokens <+: parent.evaluatedTokens
  height : session.initialOutputHeight ≤ parent.outputHeight
  length : parent.evaluatedTokens.length - session.initialEvaluatedTokens.length =
    parent.outputHeight.toNat - session.initialOutputHeight.toNat
  context : parent.evaluatedTokens.length ≤ session.maxContextTokens.toNat
  vocabulary : ∀ token ∈ parent.evaluatedTokens, token < session.vocabSize
  frontier : ∀ token outputOrdinal, parent.frontier = .opened token outputOrdinal →
    outputOrdinal = parent.outputHeight ∧ token < session.vocabSize

/-- A link leads to a sound parent. -/
theorem Link.advance_sound (link : Link p session parent commit) :
    (parent.advance commit.result).Sound session := by
  obtain ⟨accepts, historical, answers⟩ := link
  have newHeight := answers.newHeight
  have baseHeight : session.initialOutputHeight.toNat ≤ commit.request.core.baseOutputHeight.toNat :=
    UInt64.le_iff_toNat_le.mp historical.height
  have tokens := accepts.tokens
  have committed := answers.committed_length_le
  have length := historical.length
  have context := historical.context
  refine ⟨?_, ?_, ?_, ?_, ?_, ?_⟩
  · have starts := historical.startsWith
    rw [tokens] at starts
    exact starts.trans (List.prefix_append ..)
  · rw [UInt64.le_iff_toNat_le]
    change _ ≤ commit.result.core.newOutputHeight.toNat
    omega
  · change (parent.evaluatedTokens ++ commit.result.core.committedTokens).length - _ =
      commit.result.core.newOutputHeight.toNat - _
    rw [List.length_append, ← tokens]
    omega
  · change (parent.evaluatedTokens ++ commit.result.core.committedTokens).length ≤ _
    rw [List.length_append, ← tokens]
    omega
  · intro token member
    rcases List.mem_append.mp member with earlier | fresh
    · exact historical.inVocabulary token (List.mem_append_left _ (tokens ▸ earlier))
    · exact answers.committed_inVocabulary historical token fresh
  · intro token outputOrdinal opened
    exact answers.frontier_opened opened

theorem Lineage.after_sound (lineage : Lineage p session parent commits) (start : parent.Sound session) :
    (parent.after commits).Sound session := by
  induction commits generalizing parent with
  | nil => exact start
  | cons commit rest ih => exact ih lineage.2 lineage.1.advance_sound

/-- The head as the left fold of `transition_head` over results, each taken at the head before it. -/
def foldedHead (p : Primitives) (head : String) (results : List AuthenticatedResultV2) : String :=
  results.foldl (fun head result => transitionHead p { result.core with baseHeadSha256 := head }) head

theorem Lineage.head_eq_foldedHead (lineage : Lineage p session parent commits) :
    (parent.after commits).headSha256 = foldedHead p parent.headSha256 (commits.map (·.result)) := by
  induction commits generalizing parent with
  | nil => rfl
  | cons commit rest ih =>
    obtain ⟨⟨accepts, _, answers⟩, later⟩ := lineage
    have base : commit.result.core.baseHeadSha256 = parent.headSha256 := answers.baseHead.trans accepts.head
    have same : { commit.result.core with baseHeadSha256 := parent.headSha256 } = commit.result.core := by
      rw [← base]
    have head : (parent.advance commit.result).headSha256 =
        transitionHead p { commit.result.core with baseHeadSha256 := parent.headSha256 } := by
      rw [same]
      exact answers.newHead
    have tail := ih later
    rw [head] at tail
    exact tail

/-- The head a commit names and the head it leads to. -/
def CommitRecordV2.baseHead (commit : CommitRecordV2) : String := commit.request.core.baseHeadSha256
def CommitRecordV2.newHead (commit : CommitRecordV2) : String := commit.result.core.newHeadSha256

theorem Lineage.chained (lineage : Lineage p session parent commits) :
    HashChain.Chained CommitRecordV2.baseHead CommitRecordV2.newHead parent.headSha256 commits := by
  induction commits generalizing parent with
  | nil => trivial
  | cons commit rest ih => exact ⟨lineage.1.accepts.head, ih lineage.2⟩

theorem Parent.after_headSha256 (parent : Parent) (commits : List CommitRecordV2) :
    (parent.after commits).headSha256 = HashChain.tip CommitRecordV2.newHead parent.headSha256 commits := by
  induction commits generalizing parent with
  | nil => rfl
  | cons commit rest ih => exact ih (parent.advance commit.result)

theorem Lineage.answers (lineage : Lineage p session parent commits)
    (member : commit ∈ commits) : commit.result.Answers p commit.request session := by
  induction commits generalizing parent with
  | nil => simp at member
  | cons first rest ih =>
    rcases List.mem_cons.mp member with rfl | later
    · exact lineage.1.answers
    · exact ih lineage.2 later

/-- Without collisions among the transitions of a lineage, its heads are pairwise distinct. -/
theorem Lineage.heads_nodup {texts : List Bytes} (free : CollisionFree p texts)
    (genesis : session.genesisHeadSha256 = session.genesisDigest p) (genesisKnown : canonical session.normalized ∈ texts)
    (known : ∀ commit ∈ commits, canonical commit.result.core.transition ∈ texts)
    (lineage : Lineage p session (Parent.genesis session) commits) :
    (HashChain.heads CommitRecordV2.newHead session.genesisHeadSha256 commits).Nodup := by
  refine HashChain.heads_nodup lineage.chained ?_ ?_
  · intro left leftIn right rightIn same
    have leftAnswers := lineage.answers leftIn
    have rightAnswers := lineage.answers rightIn
    have digests : transitionHead p left.result.core = transitionHead p right.result.core := by
      rw [← leftAnswers.newHead, ← rightAnswers.newHead]
      exact same
    have transitions := canonical_injective (free _ (known left leftIn) _ (known right rightIn) digests)
    have bases : left.result.core.baseHeadSha256 = right.result.core.baseHeadSha256 :=
      congrArg HeadTransitionV2.baseHeadSha256 transitions
    change left.request.core.baseHeadSha256 = right.request.core.baseHeadSha256
    rw [← leftAnswers.baseHead, ← rightAnswers.baseHead, bases]
  · intro commit member returned
    have answers := lineage.answers member
    have digests : p.sha256Hex (canonical commit.result.core.transition) = p.sha256Hex (canonical session.normalized) := by
      have heads : commit.result.core.newHeadSha256 = session.genesisDigest p := returned.trans genesis
      rw [answers.newHead] at heads
      exact heads
    exact canonical_session_ne_transition _ _ (free _ (known commit member) _ genesisKnown digests).symm

end Muser.Verifier
