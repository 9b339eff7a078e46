import Muser.Tokenizer.Lossy
import Muser.Tokenizer.Tables

/-! # Streaming the text of tokens

The streaming detokenizer gives out the text of the tokens as they come, and waits where a character may
be unfinished. Where more bytes wait than a character has, it gives them up one by one. The text of all
tokens has one replacement for the bytes of a character that breaks off, so the two differ where such a
character is given up by its bytes.
-/

namespace Muser

open Text

namespace Reply.StreamingDetokenizer

variable (tokenizer : Tokenizer)

theorem applySpmFixup_append (left right : Text) :
    applySpmFixup tokenizer (left ++ right) = applySpmFixup tokenizer left ++ applySpmFixup tokenizer right := by
  rw [applySpmFixup, applySpmFixup, applySpmFixup]
  split
  · exact List.map_append
  · rfl

@[simp] theorem length_applySpmFixup (text : Text) : (applySpmFixup tokenizer text).length = text.length := by
  rw [applySpmFixup]
  split
  · exact List.length_map _
  · rfl

theorem applySpmFixup_idem (text : Text) :
    applySpmFixup tokenizer (applySpmFixup tokenizer text) = applySpmFixup tokenizer text := by
  simp only [applySpmFixup]
  split
  · rw [List.map_map]
    apply List.map_congr_left
    intro character _
    simp only [Function.comp_apply]
    split
    · rfl
    · rfl
  · rfl

/-- Whether a drain gives up the first byte of a character that breaks off: behind bytes that stand for nothing by themselves
there are the first two or three bytes of a character, which do not go on, with more than four bytes from there. -/
def breaks : Bytes → Bool
  | [] => false
  | first :: rest =>
    if rest.length < 4 then false
    else match Utf8.decode (first :: rest) with
      | .malformed 1 => breaks rest
      | .malformed _ => true
      | _ => false

theorem breaks_of_short {bytes : Bytes} (short : bytes.length ≤ 4) : breaks bytes = false := by
  cases bytes with
  | nil => rfl
  | cons first rest =>
    rw [List.length_cons] at short
    rw [breaks, if_pos (by omega)]

theorem breaks_of_character {bytes rest : Bytes} {value : ℕ}
    (is : Utf8.decode bytes = .character value rest) : breaks bytes = false := by
  cases bytes with
  | nil => rfl
  | cons first tail =>
    rw [breaks]
    split
    · rfl
    · rw [is]

variable {rest : Bytes} {first : UInt8} {length : ℕ}

theorem breaks_of_malformed (many : 4 ≤ rest.length)
    (wrong : Utf8.decode (first :: rest) = .malformed length) : breaks (first :: rest) = if length = 1 then
      breaks rest else true := by
  rw [breaks, if_neg (by omega), wrong]
  match length with
  | 0 => rfl
  | 1 => rfl
  | _ + 2 => rfl

/-- What a drain does to the text of the bytes that wait: it is kept, or has more characters if a character was broken. -/
structure Drains (pending : Bytes) (drained : Text × StreamingDetokenizer) : Prop where
  fixed : applySpmFixup tokenizer drained.1 = drained.1
  kept : breaks pending = false → ∀ more, applySpmFixup tokenizer (fromUtf8Lossy (pending ++ more)) =
    drained.1 ++ applySpmFixup tokenizer (fromUtf8Lossy (drained.2.pending ++ more))
  longer : breaks pending = true → ∀ more, (fromUtf8Lossy (pending ++ more)).length <
    drained.1.length + (fromUtf8Lossy (drained.2.pending ++ more)).length

variable {tokenizer} {pending : Bytes} {drained : Text × StreamingDetokenizer}

/-- It has no fewer characters in any case. -/
theorem Drains.length_le (drains : Drains tokenizer pending drained) (more : Bytes) :
    (fromUtf8Lossy (pending ++ more)).length ≤
    drained.1.length + (fromUtf8Lossy (drained.2.pending ++ more)).length := by
  cases is : breaks pending with
  | true => exact (drains.longer is more).le
  | false =>
    have same := congrArg List.length (drains.kept is more)
    rw [List.length_append, length_applySpmFixup, length_applySpmFixup] at same
    exact same.le

theorem drains_wait (quiet : breaks pending = false) : Drains tokenizer pending ([], ⟨pending⟩) := by
  refine ⟨?_, fun _ _ => rfl, fun breaks => ?_⟩
  · rw [applySpmFixup]
    split <;> rfl
  · rw [quiet] at breaks
    cases breaks

theorem drains_characters {characters : Text} (quiet : breaks (Utf8.encodeAll characters ++ rest) = false) :
    Drains tokenizer (Utf8.encodeAll characters ++ rest) (applySpmFixup tokenizer characters, ⟨rest⟩) := by
  refine ⟨applySpmFixup_idem tokenizer characters, fun _ more => ?_, fun breaks => ?_⟩
  · rw [List.append_assoc, fromUtf8Lossy_append, applySpmFixup_append]
  · rw [quiet] at breaks
    cases breaks

/-- A byte that starts no character is given up; if it started one that breaks off, what follows it are more replacements. -/
theorem drains_byte (wrong : Utf8.decode (first :: rest) = .malformed length)
    (many : 4 ≤ rest.length) (drains : Drains tokenizer rest drained) :
    Drains tokenizer (first :: rest) (applySpmFixup tokenizer (fromUtf8Lossy [first] ++ drained.1), drained.2) := by
  have stuck : Utf8.Stuck (first :: rest) := fun value left => by rw [wrong]; nofun
  have onward : ∀ more, Utf8.decode (first :: rest ++ more) = .malformed length := by
    intro more
    rw [Utf8.decode_append (by rw [wrong]; nofun), wrong]
  rw [fromUtf8Lossy_byte stuck, applySpmFixup_append, drains.fixed]
  have wide := Utf8.decode_malformed wrong
  refine ⟨?_, fun quiet more => ?_, fun broken more => ?_⟩
  · rw [applySpmFixup_append, applySpmFixup_idem, drains.fixed]
  · rw [breaks_of_malformed many wrong] at quiet
    split at quiet
    · next single =>
      subst single
      rw [fromUtf8Lossy_malformed (onward more), List.cons_append, List.drop_one, List.tail_cons, ← List.singleton_append,
        applySpmFixup_append, drains.kept quiet, List.append_assoc]
    · cases quiet
  · rw [breaks_of_malformed many wrong] at broken
    dsimp only
    rw [fromUtf8Lossy_malformed (onward more), List.length_cons, List.length_append, length_applySpmFixup,
      List.length_singleton]
    split at broken
    · next single =>
      subst single
      have longer := drains.longer broken more
      rw [List.cons_append, List.drop_one, List.tail_cons]
      omega
    · next several =>
      obtain ⟨_, front, left, same, size, within⟩ := Utf8.decode_malformed_parts wrong
      obtain ⟨rfl, rfl⟩ := List.cons.inj same
      have behind : (first :: (front ++ left) ++ more).drop length = left ++ more := by
        rw [← size, Nat.add_comm, List.cons_append, List.drop_succ_cons, List.append_assoc, List.drop_left]
      have other := drains.length_le more
      rw [List.append_assoc, fromUtf8Lossy_following within, List.length_append, List.length_replicate] at other
      rw [behind]
      omega

variable (tokenizer)

theorem drains_drainComplete {count : ℕ} (enough : pending.length < count) :
    Drains tokenizer pending (drainComplete tokenizer count ⟨pending⟩) := by
  induction count generalizing pending with
  | zero => exact absurd enough (Nat.not_lt_zero _)
  | succ count ih =>
    obtain ⟨characters, rest, reads⟩ := Utf8.fromUtf8_reads pending
    obtain ⟨whole, stuck⟩ := reads.stuck
    have quiet : characters ≠ [] → breaks pending = false := by
      intro some_
      obtain ⟨first, others, rfl⟩ := List.exists_cons_of_ne_nil some_
      rw [whole, Utf8.encodeAll_cons, List.append_assoc]
      exact breaks_of_character (Utf8.decode_encode first _)
    rw [drainComplete]
    generalize Utf8.fromUtf8 pending = answer at reads
    have front : characters ≠ [] → Drains tokenizer pending
        (applySpmFixup tokenizer ((Utf8.fromUtf8 (pending.take (Utf8.encodeAll characters).length)).toOption.getD []),
          ⟨pending.drop (Utf8.encodeAll characters).length⟩) := by
      intro some_
      have quiet := quiet some_
      rw [whole] at quiet ⊢
      rw [List.take_left, List.drop_left, Utf8.fromUtf8_encodeAll]
      exact drains_characters quiet
    cases reads with
    | whole is =>
      rw [whole]
      apply drains_characters
      by_cases nothing : characters = []
      · rw [nothing]
        rfl
      · rw [← whole]
        exact quiet nothing
    | truncated is some_ ends =>
      dsimp only
      split
      · next none =>
        obtain rfl := Utf8.encodeAll_eq_nil (List.length_eq_zero_iff.mp none)
        obtain rfl : pending = rest := is
        have short := Utf8.decode_truncated ends
        rw [if_neg (by omega)]
        exact drains_wait (breaks_of_short (by omega))
      · next some_ => exact front (fun nothing => some_ (by rw [nothing]; rfl))
    | malformed is wrong =>
      dsimp only
      split
      · next none =>
        obtain rfl := Utf8.encodeAll_eq_nil (List.length_eq_zero_iff.mp none)
        obtain rfl : pending = rest := is
        split
        · next many =>
          cases pending with
          | nil => cases many
          | cons first rest =>
            rw [List.length_cons] at many enough
            exact drains_byte wrong (by omega) (ih (by omega))
        · next few => exact drains_wait (breaks_of_short (by omega))
      · next some_ => exact front (fun nothing => some_ (by rw [nothing]; rfl))

/-! ## The tokens of a sequence -/

/-- The strings that are returned for some tokens, in one text. -/
def pushTokens (detokenizer : StreamingDetokenizer) : List ℕ → Text × StreamingDetokenizer
  | [] => ([], detokenizer)
  | token :: tokens =>
    let (piece, detokenizer) := detokenizer.pushToken tokenizer token
    let (text, detokenizer) := pushTokens detokenizer tokens
    (piece ++ text, detokenizer)

/-- What is emitted for some tokens, the flush at the end included. -/
def streamed (tokens : List ℕ) : Text :=
  let (text, detokenizer) := pushTokens tokenizer ⟨[]⟩ tokens
  text ++ (detokenizer.flush tokenizer).1

/-- The bytes that wait when a token is pushed behind others, its own included. -/
def waiting (detokenizer : StreamingDetokenizer) (before : List ℕ) (token : ℕ) : Bytes :=
  (pushTokens tokenizer detokenizer before).2.pending ++ tokenizer.tokenBytes token

/-- No token makes a drain give up the first byte of a character that breaks off. -/
def Unbroken (detokenizer : StreamingDetokenizer) (tokens : List ℕ) : Prop :=
  ∀ before token after, tokens = before ++ token :: after → breaks (waiting tokenizer detokenizer before token) = false

variable {tokenizer} {detokenizer : StreamingDetokenizer} {token : ℕ} {tokens : List ℕ}

theorem unbroken_nil : Unbroken tokenizer detokenizer [] := by
  intro before token after is
  rw [eq_comm, List.append_eq_nil_iff] at is
  exact absurd is.2 (List.cons_ne_nil _ _)

theorem unbroken_cons : Unbroken tokenizer detokenizer (token :: tokens) ↔
    breaks (detokenizer.pending ++ tokenizer.tokenBytes token) = false ∧
      Unbroken tokenizer (detokenizer.pushToken tokenizer token).2 tokens := by
  constructor
  · intro unbroken
    refine ⟨unbroken [] token tokens rfl, fun before other after is => ?_⟩
    exact unbroken (token :: before) other after (by rw [is, List.cons_append])
  · rintro ⟨first, others⟩ before other after is
    cases before with
    | nil =>
      obtain ⟨rfl, rfl⟩ := List.cons.inj is
      exact first
    | cons head before =>
      obtain ⟨rfl, rfl⟩ := List.cons.inj is
      exact others before other after rfl

theorem pushTokens_cons (detokenizer : StreamingDetokenizer) (token : ℕ) (tokens : List ℕ) :
    pushTokens tokenizer detokenizer (token :: tokens) =
      ((detokenizer.pushToken tokenizer token).1 ++
        (pushTokens tokenizer (detokenizer.pushToken tokenizer token).2 tokens).1,
        (pushTokens tokenizer (detokenizer.pushToken tokenizer token).2 tokens).2) := rfl

theorem drains_pushToken (detokenizer : StreamingDetokenizer) (token : ℕ) :
    Drains tokenizer (detokenizer.pending ++ tokenizer.tokenBytes token) (detokenizer.pushToken tokenizer token) :=
  drains_drainComplete tokenizer (Nat.lt_succ_self _)

/-- Where nothing was broken, the text so far is at the front of the text of all bytes. -/
theorem pushTokens_kept (unbroken : Unbroken tokenizer detokenizer tokens) (more : Bytes) :
    applySpmFixup tokenizer (fromUtf8Lossy (detokenizer.pending ++ tokens.flatMap tokenizer.tokenBytes ++ more)) =
      (pushTokens tokenizer detokenizer tokens).1 ++
        applySpmFixup tokenizer (fromUtf8Lossy ((pushTokens tokenizer detokenizer tokens).2.pending ++ more)) := by
  induction tokens generalizing detokenizer with
  | nil => rw [List.flatMap_nil, List.append_nil, pushTokens, List.nil_append]
  | cons token tokens ih =>
    obtain ⟨quiet, others⟩ := unbroken_cons.mp unbroken
    have drained := (drains_pushToken detokenizer token).kept quiet (tokens.flatMap tokenizer.tokenBytes ++ more)
    rw [List.flatMap_cons, ← List.append_assoc, List.append_assoc, drained, ← List.append_assoc, ih others,
      pushTokens_cons, List.append_assoc]

/-- There are never fewer characters than in the text of all bytes, and more once something was broken. -/
theorem pushTokens_length (detokenizer : StreamingDetokenizer) (tokens : List ℕ) (more : Bytes) :
    (fromUtf8Lossy (detokenizer.pending ++ tokens.flatMap tokenizer.tokenBytes ++ more)).length ≤
        (pushTokens tokenizer detokenizer tokens).1.length +
          (fromUtf8Lossy ((pushTokens tokenizer detokenizer tokens).2.pending ++ more)).length ∧
      (¬Unbroken tokenizer detokenizer tokens →
        (fromUtf8Lossy (detokenizer.pending ++ tokens.flatMap tokenizer.tokenBytes ++ more)).length <
          (pushTokens tokenizer detokenizer tokens).1.length +
            (fromUtf8Lossy ((pushTokens tokenizer detokenizer tokens).2.pending ++ more)).length) := by
  induction tokens generalizing detokenizer with
  | nil =>
    rw [List.flatMap_nil, List.append_nil, pushTokens]
    exact ⟨Nat.le_add_left _ _, fun broken => absurd unbroken_nil broken⟩
  | cons token tokens ih =>
    have drains : Drains tokenizer _ _ := drains_pushToken detokenizer token
    have onward := drains.length_le (tokens.flatMap tokenizer.tokenBytes ++ more)
    obtain ⟨others, broken⟩ := ih (detokenizer.pushToken tokenizer token).2
    rw [List.append_assoc] at others broken
    rw [List.flatMap_cons, ← List.append_assoc, List.append_assoc _ _ more, pushTokens_cons, List.length_append]
    dsimp only
    refine ⟨by omega, fun breaks_ => ?_⟩
    cases is : breaks (detokenizer.pending ++ tokenizer.tokenBytes token) with
    | true =>
      have longer := drains.longer is (tokens.flatMap tokenizer.tokenBytes ++ more)
      omega
    | false =>
      have := broken fun rest => breaks_ (unbroken_cons.mpr ⟨is, rest⟩)
      omega

theorem flush_text (detokenizer : StreamingDetokenizer) :
    (detokenizer.flush tokenizer).1 = applySpmFixup tokenizer (fromUtf8Lossy detokenizer.pending) := by
  rw [flush]
  split
  · next nothing =>
    rw [nothing, fromUtf8Lossy_nil, applySpmFixup]
    split <;> rfl
  · rfl

theorem pushTokens_append (detokenizer : StreamingDetokenizer) (before after : List ℕ) :
    pushTokens tokenizer detokenizer (before ++ after) =
      ((pushTokens tokenizer detokenizer before).1 ++
        (pushTokens tokenizer (pushTokens tokenizer detokenizer before).2 after).1,
        (pushTokens tokenizer (pushTokens tokenizer detokenizer before).2 after).2) := by
  induction before generalizing detokenizer with
  | nil => rfl
  | cons token before ih => rw [List.cons_append, pushTokens_cons, ih, pushTokens_cons, List.append_assoc]

end Reply.StreamingDetokenizer

namespace Bpe.BpeTokenizer

open Reply.StreamingDetokenizer

variable (tokenizer : BpeTokenizer) (ids : List ℕ)

/-- The bytes of a token; an id that is out of range has none. -/
def getTokenBytes (id : ℕ) : Bytes := tokenizer.tokenBytes[id]?.getD []

def encode (text : Text) : List ℕ := ((tokenizer.tryEncodeWithOptions text true).bind Except.toOption).getD []

/-- What the streaming detokenizer reads of a tokenizer. -/
def served : Reply.Tokenizer := ⟨tokenizer.getTokenBytes, tokenizer.encode, tokenizer.isSpmBpe⟩

/-- What is emitted token by token is the text of all of them, and is at any time at the front of it. -/
structure StreamsWhole : Prop where
  whole : streamed tokenizer.served ids = tokenizer.decodeAll ids
  begins : ∀ before after, ids = before ++ after → (pushTokens tokenizer.served ⟨[]⟩ before).1 <+: tokenizer.decodeAll ids

theorem decodeAll_eq : tokenizer.decodeAll ids =
    applySpmFixup tokenizer.served (Reply.fromUtf8Lossy (ids.flatMap tokenizer.served.tokenBytes)) := rfl

/-- Streaming gives the text of all tokens exactly where no drain gives up the first byte of a character that breaks off. -/
theorem streaming_iff : tokenizer.StreamsWhole ids ↔ Unbroken tokenizer.served ⟨[]⟩ ids := by
  have emitted : streamed tokenizer.served ids = (pushTokens tokenizer.served ⟨[]⟩ ids).1 ++
      applySpmFixup tokenizer.served (Reply.fromUtf8Lossy (pushTokens tokenizer.served ⟨[]⟩ ids).2.pending) := by
    rw [← flush_text]
    rfl
  constructor
  · intro whole
    by_contra broken
    have longer := (pushTokens_length ⟨[]⟩ ids []).2 broken
    have same := congrArg List.length whole.whole
    rw [emitted, decodeAll_eq, List.length_append, length_applySpmFixup, length_applySpmFixup] at same
    rw [List.append_nil, List.append_nil, List.nil_append] at longer
    omega
  · intro unbroken
    have kept := pushTokens_kept unbroken []
    rw [List.append_nil, List.append_nil, List.nil_append, ← decodeAll_eq, ← emitted] at kept
    refine ⟨kept.symm, fun before after is => ?_⟩
    rw [kept, emitted, is, pushTokens_append, List.append_assoc]
    exact List.prefix_append _ _

/-- Three bytes of a character of four, and the letters behind them, as tokens. -/
def brokenVocab : List Text := ["<0xF0>".toList, "<0x9F>".toList, "<0x98>".toList, ['a'], ['b']]

/-- The three bytes are one replacement in the text of all tokens, and three where they are given up one by one. -/
theorem broken_streams_longer :
    ¬(BpeTokenizer.new (fun _ => wholeRegex) brokenVocab [] "default" [6, 6, 6, 1, 1]).StreamsWhole [0, 1, 2, 3, 4] := by
  intro streams
  have whole := streams.whole
  revert whole
  decide +kernel

end Bpe.BpeTokenizer

end Muser
