import Muser.Reply.Saying

/-! # Lossy decoding

The lossy decoder gives back a text that was encoded, and what it makes of any bytes takes at least as many
bytes as they are.
-/

namespace Muser

open Text

namespace Utf8

variable {bytes : Bytes}

theorem following_truncated {count low high value length : ℕ}
    (is : following count low high value length bytes = .truncated) : bytes.length < count := by
  induction count generalizing low high value length bytes with
  | zero => cases is
  | succ count ih =>
    cases bytes with
    | nil => exact Nat.succ_pos count
    | cons byte rest =>
      rw [following] at is
      split at is
      · exact Nat.succ_lt_succ (ih is)
      · cases is

variable {count low high value length found : ℕ}

theorem following_malformed
    (is : following count low high value length bytes = .malformed found) : length ≤ found ∧ found < length + count := by
  induction count generalizing low high value length bytes with
  | zero => cases is
  | succ count ih =>
    cases bytes with
    | nil => cases is
    | cons byte rest =>
      rw [following] at is
      split at is
      · have := ih is
        lia
      · cases is
        lia

theorem lead_following {byte : ℕ} {first : Lead} (is : lead byte = some first) : first.following ≤ 3 := by
  simp only [lead] at is
  split at is
  · cases is
    exact Nat.one_le_ofNat
  · split at is
    · cases is
      exact Nat.le_succ 2
    · split at is <;> cases is
      exact Nat.le_refl 3

theorem decode_truncated (is : decode bytes = .truncated) : bytes.length ≤ 3 := by
  cases bytes with
  | nil => exact Nat.zero_le 3
  | cons byte rest =>
    rw [decode] at is
    split at is
    · cases is
    · split at is
      · cases is
      · rename_i first is_first
        have short := following_truncated is
        have bound := lead_following is_first
        rw [List.length_cons]
        omega

theorem decode_malformed {length : ℕ} (is : decode bytes = .malformed length) : 1 ≤ length ∧ length ≤ 3 := by
  cases bytes with
  | nil => cases is
  | cons byte rest =>
    rw [decode] at is
    split at is
    · cases is
    · split at is
      · cases is
        lia
      · rename_i first is_first
        have found := following_malformed is
        have bound := lead_following is_first
        lia

theorem following_malformed_parts (low_ : 0x80 ≤ low) (high_ : high ≤ 0xBF)
    (is : following count low high value length bytes = .malformed found) :
    ∃ front rest, bytes = front ++ rest ∧ length + front.length = found ∧ ∀ byte ∈ front,
      0x80 ≤ byte.toNat ∧ byte.toNat ≤ 0xBF := by
  induction count generalizing low high value length bytes with
  | zero => cases is
  | succ count ih =>
    cases bytes with
    | nil => cases is
    | cons byte rest =>
      rw [following] at is
      split at is
      · next inside =>
        obtain ⟨front, rest, rfl, size, within⟩ := ih le_rfl le_rfl is
        refine ⟨byte :: front, rest, rfl, by rw [List.length_cons]; lia, fun other mem => ?_⟩
        rcases List.mem_cons.mp mem with rfl | mem
        · lia
        · exact within other mem
      · cases is
        exact ⟨[], byte :: rest, rfl, rfl, List.forall_mem_nil _⟩

/-- Bytes that are no character are a first byte and some that may follow one. -/
theorem decode_malformed_parts {length : ℕ} (is : decode bytes = .malformed length) :
    ∃ first front rest, bytes = first :: (front ++ rest) ∧ 1 + front.length = length ∧
      ∀ byte ∈ front, 0x80 ≤ byte.toNat ∧ byte.toNat ≤ 0xBF := by
  cases bytes with
  | nil => cases is
  | cons byte rest =>
    rw [decode] at is
    split at is
    · cases is
    · split at is
      · cases is
        exact ⟨byte, [], rest, rfl, rfl, List.forall_mem_nil _⟩
      · rename_i lead announced
        have bounds : 0x80 ≤ lead.low ∧ lead.high ≤ 0xBF := by
          rcases lead_some announced with ⟨-, -, rfl⟩ | ⟨-, -, rfl⟩ | ⟨-, -, rfl⟩
          · exact ⟨le_rfl, le_rfl⟩
          · constructor <;> dsimp only <;> split <;> lia
          · constructor <;> dsimp only <;> split <;> lia
        obtain ⟨front, rest, rfl, size, within⟩ := following_malformed_parts bounds.1 bounds.2 is
        exact ⟨byte, front, rest, rfl, size, within⟩

/-- A byte that may follow another one starts no character. -/
theorem decode_following {byte : UInt8} (low : 0x80 ≤ byte.toNat) (high : byte.toNat ≤ 0xBF) (rest : Bytes) :
    decode (byte :: rest) = .malformed 1 := by
  have none : lead byte.toNat = none := by
    rw [lead, if_neg (by lia), if_neg (by lia), if_neg (by lia)]
  rw [decode, if_neg (by lia), none]

end Utf8

namespace Reply

theorem fromUtf8Lossy_encodeAll (text : Text) : fromUtf8Lossy (Utf8.encodeAll text) = text := by
  rw [fromUtf8Lossy, lossyUpTo, Utf8.fromUtf8_encodeAll]

theorem size_replacement : size [replacement] = 3 := by decide

variable {bytes : Bytes}

theorem length_le_lossyUpTo {count : ℕ} (enough : bytes.length < count) :
    bytes.length ≤ size (lossyUpTo count bytes) := by
  induction count generalizing bytes with
  | zero => exact absurd enough (Nat.not_lt_zero _)
  | succ count ih =>
    obtain ⟨characters, rest, reads⟩ := Utf8.fromUtf8_reads bytes
    rw [lossyUpTo]
    generalize answer : Utf8.fromUtf8 bytes = found at reads
    cases reads with
    | whole is =>
      rw [is]
      exact Nat.le_refl _
    | truncated is _ ends =>
      have front : bytes.take (Utf8.encodeAll characters).length = Utf8.encodeAll characters := by
        rw [is, List.take_left]
      have short := Utf8.decode_truncated ends
      dsimp only
      rw [front, Utf8.fromUtf8_encodeAll, is, List.length_append]
      change _ ≤ size (characters ++ [replacement])
      rw [size_append, size_replacement, size]
      lia
    | malformed is wrong =>
      rename_i length
      have front : bytes.take (Utf8.encodeAll characters).length = Utf8.encodeAll characters := by
        rw [is, List.take_left]
      have back : bytes.drop ((Utf8.encodeAll characters).length + length) = rest.drop length := by
        rw [is, List.drop_append, List.drop_of_length_le (by lia), List.nil_append, Nat.add_sub_cancel_left]
      have wide := Utf8.decode_malformed wrong
      dsimp only
      rw [front, Utf8.fromUtf8_encodeAll, back]
      change _ ≤ size (characters ++ ([replacement] ++ lossyUpTo count (rest.drop length)))
      rw [size_append, size_append, size_replacement]
      have whole : bytes.length = size characters + rest.length := by
        rw [is, List.length_append, size]
      have some_ : 0 < rest.length := by
        apply List.length_pos_of_ne_nil
        rintro rfl
        cases wrong
      have left : (rest.drop length).length ≤ size (lossyUpTo count (rest.drop length)) := by
        apply ih
        rw [List.length_drop]
        lia
      rw [List.length_drop] at left
      lia

/-- A lossy text takes at least as many bytes as it was made of. -/
theorem length_le_fromUtf8Lossy (bytes : Bytes) : bytes.length ≤ size (fromUtf8Lossy bytes) :=
  length_le_lossyUpTo (Nat.lt_succ_self _)

/-! ## The parts of some bytes

Characters are kept, and each part that is none is one replacement.
-/

theorem lossyUpTo_enough {count count' : ℕ} (enough : bytes.length < count) (enough' : bytes.length < count') :
    lossyUpTo count bytes = lossyUpTo count' bytes := by
  induction count generalizing bytes count' with
  | zero => exact absurd enough (Nat.not_lt_zero _)
  | succ count ih =>
    cases count' with
    | zero => exact absurd enough' (Nat.not_lt_zero _)
    | succ count' =>
      obtain ⟨characters, rest, reads⟩ := Utf8.fromUtf8_reads bytes
      rw [lossyUpTo, lossyUpTo]
      generalize Utf8.fromUtf8 bytes = found at reads
      cases reads with
      | whole => rfl
      | truncated => rfl
      | malformed is wrong =>
        have wide := Utf8.decode_malformed wrong
        have some_ : 0 < bytes.length := by
          apply List.length_pos_of_ne_nil
          rintro rfl
          rw [eq_comm, List.append_eq_nil_iff] at is
          rw [is.2] at wrong
          cases wrong
        dsimp only
        congr 2
        apply ih
        · rw [List.length_drop]
          omega
        · rw [List.length_drop]
          omega

/-- What the lossy decoder makes of bytes that start with no character. -/
def lossyStuck (bytes : Bytes) : Text :=
  if bytes = [] then []
  else match Utf8.decode bytes with
    | .malformed length => replacement :: fromUtf8Lossy (bytes.drop length)
    | _ => [replacement]

/-- The characters at the front are kept. -/
theorem fromUtf8Lossy_parts {rest : Bytes} (stuck : Utf8.Stuck rest) (characters : Text) :
    fromUtf8Lossy (Utf8.encodeAll characters ++ rest) = characters ++ lossyStuck rest := by
  obtain ⟨others, rest', reads⟩ := Utf8.fromUtf8_reads (Utf8.encodeAll characters ++ rest)
  obtain ⟨whole, stuck'⟩ := reads.stuck
  obtain ⟨rfl, rfl⟩ := Utf8.encodeAll_append_inj stuck stuck' whole
  rw [fromUtf8Lossy, lossyUpTo, lossyStuck]
  generalize Utf8.fromUtf8 (Utf8.encodeAll characters ++ rest) = answer at reads
  cases reads with
  | whole =>
    rw [if_pos rfl]
    exact (List.append_nil _).symm
  | truncated _ some_ ends =>
    rw [if_neg some_, ends]
    dsimp only
    rw [List.take_left, Utf8.fromUtf8_encodeAll]
    rfl
  | malformed _ wrong =>
    rename_i length
    have some_ : rest ≠ [] := by
      rintro rfl
      cases wrong
    have wide := Utf8.decode_malformed wrong
    have pos := List.length_pos_of_ne_nil some_
    rw [if_neg some_, wrong]
    dsimp only
    rw [List.take_left, Utf8.fromUtf8_encodeAll, List.drop_append, List.drop_of_length_le (Nat.le_add_right _ _),
      List.nil_append,
      Nat.add_sub_cancel_left, fromUtf8Lossy, lossyUpTo_enough (Nat.lt_succ_self _)]
    · rfl
    · rw [List.length_drop, List.length_append]
      omega

theorem fromUtf8Lossy_append (characters : Text) (rest : Bytes) :
    fromUtf8Lossy (Utf8.encodeAll characters ++ rest) = characters ++ fromUtf8Lossy rest := by
  obtain ⟨others, rest', reads⟩ := Utf8.fromUtf8_reads rest
  obtain ⟨rfl, stuck⟩ := reads.stuck
  rw [← List.append_assoc, ← Utf8.encodeAll_append, fromUtf8Lossy_parts stuck, fromUtf8Lossy_parts stuck, List.append_assoc]

theorem fromUtf8Lossy_stuck (stuck : Utf8.Stuck bytes) : fromUtf8Lossy bytes = lossyStuck bytes :=
  fromUtf8Lossy_parts stuck []

theorem fromUtf8Lossy_malformed {length : ℕ} (is : Utf8.decode bytes = .malformed length) :
    fromUtf8Lossy bytes = replacement :: fromUtf8Lossy (bytes.drop length) := by
  have some_ : bytes ≠ [] := by
    rintro rfl
    cases is
  rw [fromUtf8Lossy_stuck (fun value rest => by rw [is]; nofun), lossyStuck, if_neg some_, is]

theorem fromUtf8Lossy_following {front : Bytes} (within : ∀ byte ∈ front, 0x80 ≤ byte.toNat ∧ byte.toNat ≤ 0xBF)
    (rest : Bytes) :
    fromUtf8Lossy (front ++ rest) = List.replicate front.length replacement ++ fromUtf8Lossy rest := by
  induction front with
  | nil => rfl
  | cons byte front ih =>
    obtain ⟨low, high⟩ := within byte List.mem_cons_self
    rw [List.cons_append, fromUtf8Lossy_malformed (Utf8.decode_following low high _), List.drop_one, List.tail_cons,
      ih fun other mem => within other (List.mem_cons_of_mem _ mem)]
    rfl

theorem fromUtf8Lossy_nil : fromUtf8Lossy [] = [] := rfl

/-- A byte that starts no character is one replacement. -/
theorem fromUtf8Lossy_byte {byte : UInt8} {rest : Bytes} (stuck : Utf8.Stuck (byte :: rest)) :
    fromUtf8Lossy [byte] = [replacement] := by
  have alone : Utf8.Stuck [byte] := by
    intro value left is
    have whole := Utf8.decode_append (by rw [is]; nofun) rest
    rw [is] at whole
    exact stuck _ _ whole
  rw [fromUtf8Lossy_stuck alone, lossyStuck, if_neg (List.cons_ne_nil _ _)]
  split
  · rename_i length wrong
    have wide := Utf8.decode_malformed wrong
    rw [List.drop_of_length_le (by rw [List.length_singleton]; exact wide.1), fromUtf8Lossy_nil]
  · rfl

end Reply

end Muser
