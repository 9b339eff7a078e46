import Muser.Reply.Sampler

/-! # The text of a reply

Tokens become text as far as their bytes are whole characters, and the text is held back where a stop
word may be about to end.
-/

namespace Muser.Reply

open Text

/-- A character for bytes that are none. -/
def replacement : Char := Char.ofNat 0xFFFD

/-- The characters of some bytes, and one for each part that is none, for a bound on how many there are. -/
def lossyUpTo : ℕ → Bytes → Text
  | 0, _ => []
  | count + 1, bytes =>
    match Utf8.fromUtf8 bytes with
    | .ok characters => characters
    | .error failure =>
      let front := (Utf8.fromUtf8 (bytes.take failure.validUpTo)).toOption.getD []
      match failure.errorLen with
      | none => front ++ [replacement]
      | some length => front ++ replacement :: lossyUpTo count (bytes.drop (failure.validUpTo + length))

def fromUtf8Lossy (bytes : Bytes) : Text := lossyUpTo (bytes.length + 1) bytes

structure StreamingDetokenizer where
  pending : Bytes
deriving DecidableEq

namespace StreamingDetokenizer

variable (tokenizer : Tokenizer)

/-- Word marks are blanks in a vocabulary of that kind. -/
def applySpmFixup (text : Text) : Text :=
  if tokenizer.isSpmBpe then text.map fun character => if character = Char.ofNat 0x2581 then ' ' else character else text

/-- The characters at the front of the bytes that wait, for a bound on how many bytes are given up. -/
def drainComplete : ℕ → StreamingDetokenizer → Text × StreamingDetokenizer
  | 0, detokenizer => ([], detokenizer)
  | count + 1, detokenizer =>
    match Utf8.fromUtf8 detokenizer.pending with
    | .ok characters => (applySpmFixup tokenizer characters, ⟨[]⟩)
    | .error failure =>
      if failure.validUpTo = 0 then
        -- More bytes than any character has, and none of them starts one.
        if 4 < detokenizer.pending.length then
          let (text, rest) := drainComplete count ⟨detokenizer.pending.drop 1⟩
          (applySpmFixup tokenizer (fromUtf8Lossy (detokenizer.pending.take 1) ++ text), rest)
        else ([], detokenizer)
      else
        (applySpmFixup tokenizer ((Utf8.fromUtf8 (detokenizer.pending.take failure.validUpTo)).toOption.getD []),
          ⟨detokenizer.pending.drop failure.validUpTo⟩)

def pushToken (detokenizer : StreamingDetokenizer) (token : ℕ) : Text × StreamingDetokenizer :=
  let pending := detokenizer.pending ++ tokenizer.tokenBytes token
  drainComplete tokenizer (pending.length + 1) ⟨pending⟩

/-- What still waits, at the end. -/
def flush (detokenizer : StreamingDetokenizer) : Text × StreamingDetokenizer :=
  if detokenizer.pending = [] then ([], detokenizer) else (applySpmFixup tokenizer (fromUtf8Lossy detokenizer.pending), ⟨[]⟩)

end StreamingDetokenizer

structure StopFilter where
  stops : List Text
  pending : Text
  holdBytes : ℕ
  matchedStop : Option Text
deriving DecidableEq

namespace StopFilter

def new (stops : List Text) : StopFilter :=
  ⟨stops.filter (· ≠ []), [], ((stops.map size).max?.getD 0) - 1, none⟩

/-- The stop word that starts first in a text, with what stands before it; of two at one place the first of the list. -/
def firstStop (stops : List Text) (text : Text) : Option (Text × Text) :=
  (stops.filterMap fun stop => (splitOnce stop text).map fun both => (both.1, stop)).foldl
    (fun best found => match best with
      | none => some found
      | some earliest => if size found.1 < size earliest.1 then some found else some earliest) none

/-- As much of a text as has at most so many bytes. -/
def takeBytes (count : ℕ) : Text → Text
  | [] => []
  | character :: rest =>
    if (Utf8.encode character).length ≤ count then
      character :: takeBytes (count - (Utf8.encode character).length) rest else []

/-- What may be said behind a piece, and whether a stop word is in it. -/
def push (filter : StopFilter) (piece : Text) : Text × Bool × StopFilter :=
  let pending := filter.pending ++ piece
  match firstStop filter.stops pending with
  | some (before, stop) => (before, true, { filter with pending := [], matchedStop := some stop })
  | none =>
    let safe := takeBytes (size pending - filter.holdBytes) pending
    (safe, false, { filter with pending := pending.drop safe.length })

/-- What was held back. -/
def finish (filter : StopFilter) : Text × StopFilter := (filter.pending, { filter with pending := [] })

end StopFilter

end Muser.Reply

/-! ## What is said of a reply

The selected tokens of a reply become text and fragments of it: each token's piece goes through the
detokenizer and the filter of stop words. What both hold back is said at the end of some replies only.
Which tokens are selected, which of them complete a call and when the time is over is given.
-/

namespace Muser.Reply

open Text

inductive StopField where
  | one (value : Text)
  | many (values : List Text)
deriving DecidableEq

namespace StopField

def values : StopField → List Text
  | one value => [value]
  | many values => values

def isEmpty : StopField → Bool
  | one value => value.isEmpty
  | many values => values.isEmpty

end StopField

structure TextRequest where
  ignoreEos : Bool
  eos : List ℕ
  stop : Option StopField
  tools : Bool
  /-- Whether there is a limit of time. -/
  timed : Bool
  /-- What else the greedy path on the accelerator waits for. -/
  accelerated : Bool

def TextRequest.stops (request : TextRequest) : List Text := request.stop.elim [] StopField.values

def TextRequest.gpuGreedy (request : TextRequest) : Bool :=
  request.accelerated && request.ignoreEos && request.stop.all StopField.isEmpty && !request.tools && !request.timed

/-- A selected token, with what the parser of calls and the clock say behind it. -/
structure Selected where
  token : ℕ
  completesCall : Bool
  late : Bool
deriving DecidableEq

/-- How a reply ends. -/
inductive Exit where
  | eos
  | word
  | call
  | time
  | limit
deriving DecidableEq

structure Saying where
  detokenizer : StreamingDetokenizer
  stopFilter : StopFilter
  text : Text
  fragments : List Text
  -- The tokens that have been said: all but one that ends the reply.
  tokens : List ℕ

def Saying.start (stops : List Text) : Saying := ⟨⟨[]⟩, .new stops, [], [], []⟩

variable (tokenizer : Tokenizer) (request : TextRequest)

/-- One token of the token-by-token path. -/
def sayToken (said : Saying) (selected : Selected) : Option Exit × Saying :=
  if !request.ignoreEos && request.eos.contains selected.token then
    (some .eos, { said with fragments := said.fragments ++ [[]] })
  else
    let (piece, detokenizer) := said.detokenizer.pushToken tokenizer selected.token
    let toolPhaseComplete := request.tools && selected.completesCall
    let (streamText, matched, stopFilter) := said.stopFilter.push piece
    let late := piece.contains '\n' && request.timed && selected.late
    let after : Saying :=
      { detokenizer := detokenizer
        stopFilter := stopFilter
        text := said.text ++ streamText
        fragments := said.fragments ++ [streamText]
        tokens := said.tokens ++ [selected.token] }
    (if matched then some .word else if toolPhaseComplete then some .call else if late then some .time else none, after)

/-- The tokens up to one that ends the reply, or all of them. -/
def sayTokens (said : Saying) : List Selected → Exit × Saying
  | [] => (.limit, said)
  | selected :: others =>
    match sayToken tokenizer request said selected with
    | (some exit, after) => (exit, after)
    | (none, after) => sayTokens after others

/-- The tokens of the greedy path: nothing looks for stop words. -/
def sayGreedily (said : Saying) : List Selected → Saying
  | [] => said
  | selected :: others =>
    let (piece, detokenizer) := said.detokenizer.pushToken tokenizer selected.token
    sayGreedily { said with
      detokenizer := detokenizer
      text := said.text ++ piece
      fragments := said.fragments ++ [piece]
      tokens := said.tokens ++ [selected.token] } others

/-- A fragment that is said only if there is something in it. -/
def Saying.say (said : Saying) (safe : Text) : Saying :=
  if safe = [] then said else { said with text := said.text ++ safe, fragments := said.fragments ++ [safe] }

/-- What was held back, where the reply was not stopped. -/
def flushSaying (exit : Exit) (said : Saying) : Saying :=
  if exit = .limit then
    let (tail, detokenizer) := said.detokenizer.flush tokenizer
    let (safe, matched, stopFilter) := said.stopFilter.push tail
    let after := { said with detokenizer := detokenizer, stopFilter := stopFilter }.say safe
    if matched then after
    else
      let (rest, stopFilter) := after.stopFilter.finish
      { after with stopFilter := stopFilter }.say rest
  else said

/-- How the tokens of a reply end, and what has been said then. -/
def sayReply (selected : List Selected) : Exit × Saying :=
  if request.gpuGreedy then (.limit, sayGreedily tokenizer (.start request.stops) selected)
  else sayTokens tokenizer request (.start request.stops) selected

/-- The text of a reply and its fragments. -/
def generateText (selected : List Selected) : Text × List Text :=
  let (exit, said) := sayReply tokenizer request selected
  let said := flushSaying tokenizer exit said
  (said.text, said.fragments)

end Muser.Reply
