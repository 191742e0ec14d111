import Scriptlet.Token.Scan

/-!
# A stream of tokens to read from

A `Stream` is what a reader sees of a source text: the tokens that are still to come and the one
taken last. A text that could be scanned only in part keeps its fault behind the last good token:
the first look beyond that token fails with it, and from then on the text simply ends there.

`Reader` is a computation on a stream that may fail; a failure leaves the stream where it was.
-/

namespace Scriptlet

/-- The tokens still to come, the fault behind them if there is one, and the token taken last. -/
structure Stream where
  pending : List Token
  failure : Option Fault
  last : Option Token

/-- The stream of a source text. -/
def Stream.ofSource (source : String) : Stream :=
  let (tokens, failure) := Token.scan source
  ⟨tokens, failure, none⟩

/-- A computation that reads from a stream of tokens. -/
abbrev Reader := EStateM Fault Stream

namespace Reader

open Token

/-- The token `k` places ahead, `none` at the end of the text. -/
def peek (k : Nat) : Reader (Option Token) := fun s =>
  match s.pending[k]? with
  | some t => .ok (some t) s
  | none =>
    match s.failure with
    | none => .ok none s
    | some fault => .error fault { s with failure := none }

/-- Has the text ended? -/
def finished : Reader Bool := do return (← peek 0).isNone

/-- The fault for a problem at the next token, or at the last one when there is no next. -/
def diagnose (problem : Problem) : Reader Fault := do
  match ← peek 0 with
  | some t => return .misread problem t.position
  | none =>
    match (← get).last with
    | some t => return .misread problem t.position
    | none => return .misread problem Position.nowhere

/-- Fails with a problem at the next token. -/
def fail {α : Type} (problem : Problem) : Reader α := do throw (← diagnose problem)

/-- Takes the next token. -/
def advance : Reader Token := do
  match ← peek 0 with
  | none => fail .unexpectedEnd
  | some t =>
    modify fun s => { s with pending := s.pending.drop 1, last := some t }
    return t

/-- Is the token `k` places ahead among those described? -/
def check (p : Pattern) (k : Nat) : Reader Bool := do return (← peek k).any p.accepts

/-- Is the next token among those described? -/
def sees (p : Pattern) : Reader Bool := check p 0

/-- Takes the next token if it is among those described. -/
def accept (p : Pattern) : Reader (Option Token) := do
  if ← sees p then return some (← advance) else return none

/-- Takes the next token if it is among those described and says whether it did. -/
def skips (p : Pattern) : Reader Bool := do return (← accept p).isSome

/-- Takes the next token, which must be among those described; `wanted` is what the diagnostic
calls them. -/
def expectAs (p : Pattern) (wanted : Wanted) : Reader Token := do
  if ← sees p then advance
  else fail (.expected wanted ((← peek 0).map (·.text)))

/-- Takes the next token, which must be among those described. -/
def expect (p : Pattern) : Reader Token := expectAs p p.wanted

/-- The tokens still to come. -/
def pending : Reader (List Token) := return (← get).pending

/-- Reads items until a closing token is taken. An item is told those before it, last first. Every
item takes a token, so `bound`, the tokens to come at the beginning, has one for each item. -/
def itemsUntil {α : Type} (close : Pattern) (item : List α → Reader α) (bound : List Token)
    (found : List α) : Reader (List α) := do
  if ← skips close then return found.reverse
  else
    let a ← item found
    match bound with
    | [] => throw .overflow
    | _ :: bound => itemsUntil close item bound (a :: found)

/-- Reads items until a closing token is taken. -/
def listUntil {α : Type} (close : Pattern) (item : List α → Reader α) : Reader (List α) := do
  itemsUntil close item (← pending) []

/-- Takes the comma after an item, unless the list ends there. -/
def separator (close : Pattern) : Reader Unit := do
  unless ← sees close do
    let _ ← expect (.punct ",")

/-- Reads items with commas between them until a closing token is taken. A comma may also stand
before the closing token. -/
def commaList {α : Type} (close : Pattern) (item : Reader α) : Reader (List α) :=
  listUntil close fun _ => do
    let a ← item
    separator close
    return a

end Reader

end Scriptlet
