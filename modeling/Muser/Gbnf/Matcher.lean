import Muser.Gbnf.Grammar
import Muser.Lib.Utf8

/-! # Matching a grammar

An Earley recognizer that is fed bytes or tokens. Its chart has one set of items for each character
or token read so far, closed under prediction and completion. Bytes may end in the middle of a
character: those of its bytes that are there wait, if some character they can become may follow.
-/

namespace Muser.Gbnf

structure Item where
  production : ℕ
  dot : ℕ
  origin : ℕ
deriving DecidableEq

def Item.advance (item : Item) : Item := { item with dot := item.dot + 1 }

structure MatchBranch where
  chart : List (Finset Item)
  pendingUtf8 : Bytes
deriving DecidableEq

structure GrammarMatcher where
  grammar : Grammar
  branches : List MatchBranch

/-- The order a hash set is visited in, which may be another for every set and every visit: the
visits are told apart by the chart so far and by the completed item they are for. -/
structure IterationOrder where
  list : List (Finset Item) → Option Item → Finset Item → List Item
  nodup : ∀ chart item items, (list chart item items).Nodup
  mem_list : ∀ chart item items other, other ∈ list chart item items ↔ other ∈ items

/-- The symbol behind an item's dot. -/
def Grammar.next (grammar : Grammar) (item : Item) : Option Symbol := (grammar.production item.production).rhs[item.dot]?

/-- A set of items while it is closed, and those of them still to be visited. -/
structure Closure where
  items : Finset Item
  agenda : List Item

namespace Closure

def insert (closure : Closure) (item : Item) : Closure :=
  if item ∈ closure.items then closure else ⟨Insert.insert item closure.items, closure.agenda ++ [item]⟩

def insertAll (closure : Closure) (items : List Item) : Closure := items.foldl insert closure

/-- Visit an item: predict the rule behind its dot, or complete the items that wait for its rule. -/
def visit (grammar : Grammar) (order : IterationOrder) (chart : List (Finset Item)) (item : Item) (closure : Closure) :
    Closure :=
  let position := chart.length
  match grammar.next item with
  | some (.rule rule) =>
    let predicted := closure.insertAll ((grammar.byLhs.getD rule []).map fun candidate => ⟨candidate, 0, position⟩)
    let nullableComplete := ∃ complete ∈ predicted.items, complete.origin = position ∧
      (grammar.production complete.production).lhs = rule ∧
      complete.dot = (grammar.production complete.production).rhs.length
    if nullableComplete then predicted.insert item.advance else predicted
  | some (.character _) => closure
  | some (.token _) => closure
  | none =>
    let completedRule := (grammar.production item.production).lhs
    let parents := order.list chart (some item) (if item.origin = position then closure.items else chart.getD item.origin ∅)
    closure.insertAll
      ((parents.filter fun parent => grammar.next parent = some (.rule completedRule)).map Item.advance)

/-- Visit the agenda's items until none is left. -/
def run (grammar : Grammar) (order : IterationOrder) (chart : List (Finset Item)) : ℕ → Closure → Closure
  | 0, closure => closure
  | steps + 1, closure =>
    match closure.agenda with
    | [] => closure
    | item :: agenda => run grammar order chart steps (visit grammar order chart item { closure with agenda := agenda })

end Closure

/-- How many items a grammar has at one origin. -/
def Grammar.itemCount (grammar : Grammar) : ℕ :=
  (grammar.productions.map fun production => production.rhs.length + 1).sum

/-- The last items of a chart, closed; no item is visited twice. -/
def close (grammar : Grammar) (order : IterationOrder) (chart : List (Finset Item)) (items : Finset Item) : Finset Item :=
  (Closure.run grammar order chart (grammar.itemCount * (chart.length + 1)) ⟨items, order.list chart none items⟩).items

/-- The items at the end of a chart. -/
def MatchBranch.frontier (branch : MatchBranch) : Finset Item := branch.chart.getLastD ∅

def Symbol.readsCharacter (value : ℕ) : Symbol → Bool
  | .character chars => chars.matches value
  | _ => false

def Symbol.readsToken (read : UInt32) (bytes : Bytes) : Symbol → Bool
  | .token terminal => terminal.matches read bytes
  | _ => false

def Symbol.meets (lower upper : ℕ) : Symbol → Bool
  | .character chars => chars.intersects lower upper
  | _ => false

/-- Upper-case hexadecimal digits, at least four. -/
def hex4 (value : ℕ) : String :=
  let digits := (Nat.toDigits 16 value).map Char.toUpper
  String.ofList (List.replicate (4 - digits.length) '0' ++ digits)

namespace MatchBranch

/-- Read one character or token with the items that match it. -/
def accept (grammar : Grammar) (order : IterationOrder) (matching : Symbol → Bool) (rejected : String)
    (branch : MatchBranch) : Except String MatchBranch :=
  let next := (branch.frontier.filter fun item => (grammar.next item).any matching).image Item.advance
  if next = ∅ then .error rejected
  else .ok { branch with chart := branch.chart ++ [close grammar order branch.chart next] }

def acceptChar (grammar : Grammar) (order : IterationOrder) (branch : MatchBranch) (value : ℕ) :
    Except String MatchBranch :=
  accept grammar order (Symbol.readsCharacter value) s!"character U+{hex4 value} is rejected by grammar" branch

def acceptTokenTerminal (grammar : Grammar) (order : IterationOrder) (branch : MatchBranch) (token : UInt32)
    (bytes : Bytes) : Except String MatchBranch :=
  accept grammar order (Symbol.readsToken token bytes) s!"token {token} does not match a token terminal" branch

/-- How many bytes a first byte announces, the bits it carries, and the least value of that length. -/
def leadBits (lead : ℕ) : Option (ℕ × ℕ × ℕ) :=
  if 0xC2 ≤ lead ∧ lead ≤ 0xDF then some (2, lead &&& 0x1F, 0x80)
  else if 0xE0 ≤ lead ∧ lead ≤ 0xEF then some (3, lead &&& 0x0F, 0x800)
  else if 0xF0 ≤ lead ∧ lead ≤ 0xF4 then some (4, lead &&& 0x07, 0x10000)
  else none

/-- The values whose first bits are known, less those that are no characters. -/
def scalarRange (value remaining minimum : ℕ) : Option (ℕ × ℕ) :=
  let lower := max (value <<< (6 * remaining)) minimum
  let upper := min ((value <<< (6 * remaining)) ||| ((1 <<< (6 * remaining)) - 1)) 0x10FFFF
  let (lower, upper) :=
    -- No character is a surrogate, and bytes that are too few reach them from one side only.
    if lower ≤ 0xDFFF ∧ 0xD800 ≤ upper then if lower < 0xD800 then (lower, 0xD7FF) else (0xE000, upper)
    else (lower, upper)
  if lower ≤ upper then some (lower, upper) else none

/-- The characters whose bytes start with some bytes, which are too few for any of them. -/
def incompleteUtf8ScalarRange (bytes : Bytes) : Option (ℕ × ℕ) :=
  match bytes with
  | [] => none
  | lead :: continuations => do
    let (length, value, minimum) ← leadBits lead.toNat
    if length ≤ bytes.length ∨ continuations.any fun byte => !(0x80 ≤ byte.toNat && byte.toNat ≤ 0xBF) then none
    else
      scalarRange (continuations.foldl (fun value byte => (value <<< 6) ||| (byte.toNat &&& 0x3F)) value)
        (length - bytes.length) minimum

def frontierAcceptsRange (grammar : Grammar) (branch : MatchBranch) (lower upper : ℕ) : Bool :=
  decide (∃ item ∈ branch.frontier, (grammar.next item).any (Symbol.meets lower upper))

/-- Read characters one after the other. -/
def acceptChars (grammar : Grammar) (order : IterationOrder) (branch : MatchBranch) (characters : List Char) :
    Except String MatchBranch :=
  characters.foldlM (fun branch character => acceptChar grammar order branch character.toNat) branch

/-- Read the bytes that wait; characters at their front first. -/
def acceptPending (grammar : Grammar) (order : IterationOrder) : ℕ → MatchBranch → Except String MatchBranch
  | 0, _ => .error "grammar token contains invalid UTF-8"
  | rounds + 1, branch =>
    match Utf8.fromUtf8 branch.pendingUtf8 with
    | .ok characters => acceptChars grammar order { branch with pendingUtf8 := [] } characters
    | .error failure =>
      if 0 < failure.validUpTo then do
        let characters := (Utf8.fromUtf8 (branch.pendingUtf8.take failure.validUpTo)).toOption.getD []
        let branch ← acceptChars grammar order
          { branch with pendingUtf8 := branch.pendingUtf8.drop failure.validUpTo } characters
        acceptPending grammar order rounds branch
      else if failure.errorLen.isSome ∨ 3 < branch.pendingUtf8.length then
        .error "grammar token contains invalid UTF-8"
      else
        match incompleteUtf8ScalarRange branch.pendingUtf8 with
        | none => .error "grammar token contains invalid UTF-8"
        | some (lower, upper) =>
          if !frontierAcceptsRange grammar branch lower upper then
            .error "incomplete UTF-8 prefix is rejected by grammar"
          else .ok branch

/-- Read bytes behind those that wait; what is left of them after a round is shorter. -/
def acceptBytes (grammar : Grammar) (order : IterationOrder) (branch : MatchBranch) (bytes : Bytes) :
    Except String MatchBranch :=
  let pending := branch.pendingUtf8 ++ bytes
  acceptPending grammar order (pending.length + 1) { branch with pendingUtf8 := pending }

end MatchBranch

namespace GrammarMatcher

/-- A matcher at the start of a grammar. -/
def new (grammar : Grammar) (order : IterationOrder) : GrammarMatcher :=
  ⟨grammar, [⟨[close grammar order [] {⟨grammar.startProduction, 0, 0⟩}], []⟩]⟩

/-- Keep a branch that was accepted, once. -/
def keep (accepted : List MatchBranch) (answer : Except String MatchBranch) : List MatchBranch :=
  match answer with
  | .ok branch => if branch ∈ accepted then accepted else accepted ++ [branch]
  | .error _ => accepted

/-- Go on with the branches that were accepted; without any the matcher stays as it is. -/
def continueWith (matcher : GrammarMatcher) (accepted : List MatchBranch) (rejected : String) :
    Except String Unit × GrammarMatcher :=
  if accepted.isEmpty then (.error rejected, matcher) else (.ok (), { matcher with branches := accepted })

def acceptToken (matcher : GrammarMatcher) (order : IterationOrder) (token : UInt32) (bytes : Bytes) :
    Except String Unit × GrammarMatcher :=
  let accepted := matcher.branches.foldl
    (fun accepted branch =>
      let accepted :=
        if branch.pendingUtf8.isEmpty then keep accepted (branch.acceptTokenTerminal matcher.grammar order token bytes)
        else accepted
      if !bytes.isEmpty then keep accepted (branch.acceptBytes matcher.grammar order bytes) else accepted)
    []
  matcher.continueWith accepted s!"token {token} is rejected by grammar"

def allowsToken (matcher : GrammarMatcher) (order : IterationOrder) (token : UInt32) (bytes : Bytes) : Bool :=
  (matcher.acceptToken order token bytes).1.isOk

def acceptBytes (matcher : GrammarMatcher) (order : IterationOrder) (bytes : Bytes) :
    Except String Unit × GrammarMatcher :=
  let accepted := matcher.branches.foldl
    (fun accepted branch => keep accepted (branch.acceptBytes matcher.grammar order bytes)) []
  matcher.continueWith accepted "bytes are rejected by grammar"

def isAccepting (matcher : GrammarMatcher) : Bool :=
  matcher.branches.any fun branch =>
    branch.pendingUtf8.isEmpty && decide (⟨matcher.grammar.startProduction, 1, 0⟩ ∈ branch.frontier)

def hasPendingUtf8 (matcher : GrammarMatcher) : Bool :=
  matcher.branches.any fun branch => !branch.pendingUtf8.isEmpty

end GrammarMatcher

end Muser.Gbnf
