import Muser.Reply.Saying

/-! # The tokenizer

Byte-pair encoding over a vocabulary: the tables that are built from it, the encoding of a text with or without
special tokens, and the decoding of tokens. A table is a function of the entries in the order of their insertion,
an absent entry of a byte table is `none`, and the regular expression of the pre-tokenizer is a parameter.
-/

namespace Muser.Bpe

open Text

/-- A part of a text that a regular expression found. -/
structure Match where
  start : ℕ
  stop : ℕ
  asStr : Text
deriving DecidableEq

/-- A compiled expression: each match is a part of the text, not before the position, and is not empty. -/
structure PreRegex where
  findFromPos : Text → ℕ → Option Match
  slice_eq : ∀ text position found, findFromPos text position = some found →
    text.slice found.start found.stop = some found.asStr
  later : ∀ text position found, findFromPos text position = some found → position ≤ found.start
  nonempty : ∀ text position found, findFromPos text position = some found → found.asStr ≠ []

/-- A map whose entries were inserted in this order: the last one of a key stays. -/
def lastOf {κ ν : Type} [DecidableEq κ] (entries : List (κ × ν)) (key : κ) : Option ν :=
  (entries.reverse.find? (·.1 = key)).map (·.2)

/-- A map into which a key is only inserted when it is vacant. -/
def firstOf {κ ν : Type} [DecidableEq κ] (entries : List (κ × ν)) (key : κ) : Option ν :=
  (entries.find? (·.1 = key)).map (·.2)

def gpt2Keep (byte : ℕ) : Bool :=
  decide (33 ≤ byte ∧ byte ≤ 126) || decide (161 ≤ byte ∧ byte ≤ 172) || decide (174 ≤ byte ∧ byte ≤ 255)

/-- The bytes that are their own characters, and then the others from U+0100 on. -/
def gpt2ByteUnicodePairs : List (UInt8 × Char) :=
  ((List.range 256).filter gpt2Keep).map (fun byte => (UInt8.ofNat byte, Char.ofNat byte)) ++
    ((List.range 256).filter (!gpt2Keep ·)).mapIdx fun index byte => (UInt8.ofNat byte, Char.ofNat (256 + index))

def gpt2UnicodeToByte (character : Char) : Option UInt8 :=
  (gpt2ByteUnicodePairs.find? (·.2 = character)).map (·.1)

def hexDigit (character : Char) : Option ℕ :=
  let value := character.toNat
  if 48 ≤ value ∧ value ≤ 57 then some (value - 48)
  else if 97 ≤ value ∧ value ≤ 102 then some (value - 87)
  else if 65 ≤ value ∧ value ≤ 70 then some (value - 55)
  else none

/-- `u8::from_str_radix` for base sixteen, which allows a plus sign. -/
def fromHex (digits : Text) : Option UInt8 :=
  let digits :=
    match digits with
    | '+' :: first :: rest => first :: rest
    | _ => digits
  if digits = [] then none
  else
    match digits.foldlM (fun value digit => (hexDigit digit).map (value * 16 + ·)) 0 with
    | some value => if value < 256 then some (UInt8.ofNat value) else none
    | none => none

/-- The byte that a fallback token stands for. -/
def byteFallbackByte (token : Text) (tokenType : Option ℤ) : Option UInt8 :=
  if tokenType.any (· ≠ 6) then none
  else
    match ['<', '0', 'x'].isPrefixOf? token with
    | none => none
    | some rest =>
      if rest.getLast? ≠ some '>' then none
      else
        let hex := rest.dropLast
        if size hex ≠ 2 then none else fromHex hex

/-- The character that marks a blank in a vocabulary of raw text. -/
def wordMark : Char := Char.ofNat 0x2581

section Tables

variable (vocab : List Text) (merges : List (Text × Text)) (preType : String) (tokenTypes : List ℤ)

def tokenToId : Text → Option ℕ := lastOf vocab.zipIdx

def mergeEntries : List ((ℕ × ℕ) × ℕ × ℕ) :=
  merges.zipIdx.filterMap fun ((left, right), priority) =>
    match tokenToId vocab left, tokenToId vocab right, tokenToId vocab (left ++ right) with
    | some left, some right, some merged => some ((left, right), priority, merged)
    | _, _, _ => none

def detectSpm : Bool :=
  preType == "gemma4" ||
    (decide (100 < (vocab.filter (startsWith · [wordMark])).length) &&
      decide ((vocab.filter (startsWith · [Char.ofNat 0x0120])).length < 100))

def fallbackBytes : List (Option UInt8) := vocab.mapIdx fun id token => byteFallbackByte token tokenTypes[id]?

def fallbackEntries : List (UInt8 × ℕ) :=
  (fallbackBytes vocab tokenTypes).zipIdx.filterMap fun (byte, id) => byte.map (·, id)

/-- The bytes of a token that is no fallback. -/
def ordinaryBytes (isSpm : Bool) (token : Text) : Bytes :=
  if isSpm then Utf8.encodeAll token
  else token.map fun character => (gpt2UnicodeToByte character).getD (UInt8.ofNat character.toNat)

def decodedBytes (isSpm : Bool) : List Bytes :=
  vocab.mapIdx fun id token =>
    match byteFallbackByte token tokenTypes[id]? with
    | some byte => [byte]
    | none => ordinaryBytes isSpm token

def byteTokens (byte : UInt8) : Option ℕ :=
  (gpt2ByteUnicodePairs.find? (·.1 = byte)).bind fun pair => tokenToId vocab [pair.2]

def charTokens (isSpm : Bool) (character : Text) : Option ℕ :=
  if isSpm then
    match lastOf (vocab.zipIdx.filter (·.1.length = 1)) character with
    | some id => some id
    | none => if (List.range 256).any (fun byte => character = [Char.ofNat byte]) then tokenToId vocab character else none
  else none

def twoByteEntries (isSpm : Bool) : List (Bytes × ℕ) :=
  if (preType = "qwen2" ∨ preType = "qwen35") ∧ isSpm = false then
    (decodedBytes vocab tokenTypes isSpm).zipIdx.filter (·.1.length = 2)
  else []

def isSpecial (id : ℕ) (token : Text) : Bool :=
  match tokenTypes[id]? with
  | some declared => declared == 3 || declared == 4
  | none => startsWith token ['<', '|'] && ['|', '>'].isSuffixOf token

/-- The special tokens, the longest first. -/
def specials : List (Text × ℕ) :=
  (vocab.zipIdx.filter fun (token, id) => isSpecial tokenTypes id token).insertionSort
    fun left right => size right.1 ≤ size left.1

def pattern (isSpm : Bool) : String :=
  if preType = "llama4" ∨ preType = "gpt-4o" then
    "[^\\r\\n\\p\x7bL\x7d\\p\x7bN\x7d]?((?=[\\p\x7bL\x7d])([^a-z]))*((?=[\\p\x7bL\x7d])([^A-Z]))+(?:'[sS]|'[tT]|'[rR][eE]|'[vV][eE]|'[mM]|'[lL][lL]|'[dD])?" ++
    "|[^\\r\\n\\p\x7bL\x7d\\p\x7bN\x7d]?((?=[\\p\x7bL\x7d])([^a-z]))+((?=[\\p\x7bL\x7d])([^A-Z]))*(?:'[sS]|'[tT]|'[rR][eE]|'[vV][eE]|'[mM]|'[lL][lL]|'[dD])?" ++
    "|\\p\x7bN\x7d\x7b1,3\x7d" ++
    "| ?[^\\s\\p\x7bL\x7d\\p\x7bN\x7d]+[\\r\\n/]*" ++
    "|\\s*[\\r\\n]+" ++
    "|\\s+(?!\\S)" ++
    "|\\s+"
  else if preType = "qwen2" ∨ preType = "qwen35" then
    "(?:'[sS]|'[tT]|'[rR][eE]|'[vV][eE]|'[mM]|'[lL][lL]|'[dD])" ++
    "|[^\\r\\n\\p\x7bL\x7d\\p\x7bN\x7d]?\\p\x7bL\x7d+" ++
    "|\\p\x7bN\x7d" ++
    "| ?[^\\s\\p\x7bL\x7d\\p\x7bN\x7d]+[\\r\\n]*" ++
    "|\\s*[\\r\\n]+" ++
    "|\\s+(?!\\S)" ++
    "|\\s+"
  else if preType = "gemma4" ∨ isSpm = true then "[^\\n]+|[\\n]+"
  else
    "'s|'t|'re|'ve|'m|'ll|'d" ++
    "| ?\\p\x7bL\x7d+" ++
    "| ?\\p\x7bN\x7d+" ++
    "| ?[^\\s\\p\x7bL\x7d\\p\x7bN\x7d]+" ++
    "|\\s+(?!\\S)" ++
    "|\\s+"

end Tables

structure BpeTokenizer where
  tokens : List Text
  tokenBytes : List Bytes
  mergeTable : ℕ × ℕ → Option (ℕ × ℕ)
  byteToToken : UInt8 → Option ℕ
  byteToFallback : UInt8 → Option ℕ
  preRegex : PreRegex
  specialTokens : List (Text × ℕ)
  qwenTwoByteTokens : List (Bytes × ℕ)
  isSpmBpe : Bool
  charToToken : Text → Option ℕ

inductive TokenizerError where
  | unencodableByte (byte : UInt8)
deriving DecidableEq

inductive Segment where
  | text (text : Text)
  | special (id : ℕ)
deriving DecidableEq

namespace BpeTokenizer

def new (compile : String → PreRegex) (vocab : List Text) (merges : List (Text × Text)) (preType : String)
    (tokenTypes : List ℤ) : BpeTokenizer :=
  let isSpm := detectSpm vocab preType
  { tokens := vocab
    tokenBytes := decodedBytes vocab tokenTypes isSpm
    mergeTable := lastOf (mergeEntries vocab merges)
    byteToToken := byteTokens vocab
    byteToFallback := firstOf (fallbackEntries vocab tokenTypes)
    preRegex := compile (pattern preType isSpm)
    specialTokens := specials vocab tokenTypes
    qwenTwoByteTokens := twoByteEntries vocab preType tokenTypes isSpm
    isSpmBpe := isSpm
    charToToken := charTokens vocab isSpm }

variable (tokenizer : BpeTokenizer)

def qwenExactTwoByteTokenId (word : Text) : Option ℕ :=
  if tokenizer.isSpmBpe || tokenizer.qwenTwoByteTokens.isEmpty then none
  else
    let bytes := Utf8.encodeAll word
    if bytes.length ≠ 2 then none else firstOf tokenizer.qwenTwoByteTokens bytes

/-- The token of a byte, or its fallback token. -/
def byteToken (byte : UInt8) : Except TokenizerError ℕ :=
  match tokenizer.byteToToken byte with
  | some id => .ok id
  | none =>
    match tokenizer.byteToFallback byte with
    | some id => .ok id
    | none => .error (.unencodableByte byte)

def charIds (character : Char) : Except TokenizerError (List ℕ) :=
  match tokenizer.charToToken [character] with
  | some id => .ok [id]
  | none => (Utf8.encode character).mapM tokenizer.byteToken

/-- The tokens of a word before its merges. -/
def wordIds (word : Text) : Except TokenizerError (List ℕ) :=
  if tokenizer.isSpmBpe then do
    let ids ← word.mapM tokenizer.charIds
    .ok ids.flatten
  else (Utf8.encodeAll word).mapM tokenizer.byteToken

/-- The pair with the first of the lowest priorities: its place, its priority and what it merges to. -/
def bestPair (ids : List ℕ) : Option (ℕ × ℕ × ℕ) :=
  (ids.zip ids.tail).zipIdx.foldl (fun best (pair, index) =>
    match tokenizer.mergeTable pair with
    | none => best
    | some (priority, merged) =>
      if best.all fun (_, lowest, _) => priority < lowest then some (index, priority, merged) else best) none

/-- The pair at the index becomes one token. -/
def mergeAt (ids : List ℕ) (index merged : ℕ) : List ℕ := (ids.set index merged).eraseIdx (index + 1)

/-- Each round makes the list shorter by one, so that its length is enough rounds. -/
def mergeUpTo : ℕ → List ℕ → List ℕ
  | 0, ids => ids
  | rounds + 1, ids =>
    match tokenizer.bestPair ids with
    | none => ids
    | some (index, _, merged) => mergeUpTo rounds (mergeAt ids index merged)

def bpeMergeIds (ids : List ℕ) : List ℕ := tokenizer.mergeUpTo ids.length ids

def encodeWord (word : Text) : Except TokenizerError (List ℕ) :=
  match tokenizer.qwenExactTwoByteTokenId word with
  | some id => .ok [id]
  | none => (tokenizer.wordIds word).map tokenizer.bpeMergeIds

/-- The words of the text from a position, and the bytes that no word covers; each step moves the position. -/
def encodeFrom (text : Text) : ℕ → ℕ → List ℕ → Except TokenizerError (List ℕ)
  | 0, _, result => .ok result
  | steps + 1, position, result =>
    match (Utf8.encodeAll text)[position]? with
    | none => .ok result
    | some byte =>
      match tokenizer.preRegex.findFromPos text position with
      | some found => do
        let ids ← tokenizer.encodeWord found.asStr
        encodeFrom text steps found.stop (result ++ ids)
      | none => do
        let id ← tokenizer.byteToken byte
        encodeFrom text steps (position + 1) (result ++ [id])

/-- The text that is encoded: blanks are word marks in a vocabulary of raw text. -/
def effective (text : Text) : Text :=
  if tokenizer.isSpmBpe then text.map fun character => if character = ' ' then wordMark else character else text

def encodeSegment (text : Text) (result : List ℕ) : Except TokenizerError (List ℕ) :=
  tokenizer.encodeFrom (tokenizer.effective text) (size (tokenizer.effective text)) 0 result

/-- The first occurrence of a special token, and the longest of those at one place. -/
def firstSpecial (remaining : Text) : Option (Text × Text × ℕ) :=
  tokenizer.specialTokens.foldl (fun best (token, id) =>
    match splitOnce token remaining with
    | none => best
    | some (before, after) =>
      if best.all fun (earlier, _, _) => size before < size earlier then some (before, after, id) else best) none

/-- The segments of a text. An empty special token would be found for ever, which is `none` here. -/
def splitUpTo : ℕ → Text → Option (List Segment)
  | _, [] => some []
  | 0, _ :: _ => none
  | rounds + 1, first :: rest =>
    match tokenizer.firstSpecial (first :: rest) with
    | none => some [.text (first :: rest)]
    | some (before, after, id) => do
      let segments ← splitUpTo rounds after
      some ((if before = [] then [] else [.text before]) ++ .special id :: segments)

def splitSpecialTokens (text : Text) : Option (List Segment) :=
  if tokenizer.specialTokens = [] then some [.text text] else tokenizer.splitUpTo text.length text

def pushSegment (result : List ℕ) : Segment → Except TokenizerError (List ℕ)
  | .special id => .ok (result ++ [id])
  | .text text => tokenizer.encodeSegment text result

def encodeSegments (segments : List Segment) : Except TokenizerError (List ℕ) := segments.foldlM tokenizer.pushSegment []

def tryEncodeWithOptions (text : Text) (parseSpecial : Bool) : Option (Except TokenizerError (List ℕ)) :=
  if text = [] then some (.ok [])
  else if !parseSpecial then some (tokenizer.encodeSegment text [])
  else (tokenizer.splitSpecialTokens text).map tokenizer.encodeSegments

def decodeAll (ids : List ℕ) : Text :=
  let text := Reply.fromUtf8Lossy (ids.flatMap fun id => tokenizer.tokenBytes[id]?.getD [])
  if tokenizer.isSpmBpe then text.map fun character => if character = wordMark then ' ' else character else text

end BpeTokenizer

end Muser.Bpe
