import Opal.Syntax.Tree
import Opal.Token.Scan

/-!
# Reading a token sequence

The state of a reader of tokens and its elementary steps. Looking ahead leaves the tokens in place. A
lexical error is met as soon as something behind it is looked at. It is handed out once: the reader
goes on behind it, and the tokens before it stay.
-/

namespace Opal

/-- The state of a reader of tokens. -/
structure Cursor where
  /-- The tokens up to the next lexical error. -/
  tokens : List Token
  /-- The lexical errors ahead. -/
  faults : List Fault
  /-- The end of the input, which is found, again and again, when nothing is left. -/
  last : Token
  /-- Where the last token that was taken stops. -/
  prevStop : Nat
  /-- The number of the next node. -/
  nextId : NodeId

/-- The reader at the start of a source text. -/
def Cursor.ofSource (source : String) : Cursor :=
  let (tokens, faults) := splitAtErrors (scan source)
  ⟨tokens,faults,endOfInput source,0,0⟩

/-- What stands after the tokens: the end of the input, or a lexical error. -/
def Cursor.ending (c : Cursor) : Scanned :=
  endingAt c.last c.faults

/-- An error, and the reader as it was left. -/
structure ReadFailure where
  error : SyntaxError
  reader : Cursor

/-- Computations that read tokens and may fail. -/
abbrev Parse := StateT Cursor (Except ReadFailure)

namespace Parse

/-- What a run has found, or its error. -/
def outcome {α : Type} : Except ReadFailure (α × Cursor) → Except SyntaxError α
  | .ok (a, _) => .ok a
  | .error f => .error f.error

/-- What is found in a source text, or the error. -/
def onSource {α : Type} (p : Parse α) (source : String) : Except SyntaxError α :=
  outcome (p.run (.ofSource source))

def fail {α : Type} (cause : SyntaxCause) (span : Span) : Parse α := fun c =>
  .error ⟨⟨cause,span⟩,c⟩

/-- What stands after the tokens. A lexical error leaves the sequence. -/
def finish : Parse Token := fun c =>
  match c.faults with
  | [] => .ok (c.last, c)
  | (e, ts) :: faults => .error ⟨e,{ c with tokens := c.tokens ++ ts, faults := faults }⟩

/-- The token `offset` places ahead. -/
def peekAt (offset : Nat) : Parse Token := fun c =>
  match c.tokens[offset]? with
  | some t => .ok (t, c)
  | none => finish c

def peek : Parse Token :=
  peekAt 0

/-- Whether the token `offset` places ahead is in the class of `kind`. -/
def checkAt (offset : Nat) (kind : Kind) : Parse Bool := do
  return (← peekAt offset).kind.sameClass kind

def check (kind : Kind) : Parse Bool :=
  checkAt 0 kind

/-- Takes the next token. The end of the input can be taken again and again. -/
def next : Parse Token := fun c =>
  match c.tokens with
  | t :: rest => .ok (t, { c with tokens := rest })
  | [] => finish c

/-- Notes where a token stops that was taken. -/
def took (t : Token) : Parse Token := fun c =>
  .ok (t, { c with prevStop := t.span.stop })

/-- Takes the next token and notes where it stops. -/
def advance : Parse Token :=
  next >>= took

/-- Takes the next token if it is in the class of `kind`, and tells whether it did. -/
def eat (kind : Kind) : Parse Bool := do
  if ← check kind then
    let _ ← advance
    return true
  else
    return false

/-- Takes the next token, which has to be in the class of `kind`. -/
def expect (kind : Kind) : Parse Token := do
  let t ← next
  if t.kind.sameClass kind then took t
  else fail (.expected (.kind kind) t.kind) t.span

/-- Takes the next token, which has to be an identifier, and gives its name. -/
def identifier : Parse String := do
  let t ← advance
  match t.kind with
  | .text .identifier name => return name
  | k => fail (.expected .identifier k) t.span

/-- Takes a name in a declaration and gives it with its span. The words `true` and `false` are let
through here, for the declaration to be rejected by name. -/
def bindingName : Parse (String × Span) := do
  let t ← advance
  match t.kind with
  | .text .identifier name => return (name, t.span)
  | .keyword .trueK => return ("true", t.span)
  | .keyword .falseK => return ("false", t.span)
  | k => fail (.expected .identifier k) t.span

/-- The span from the start of `start` to the end of the last token taken. -/
def spanSince (start : Span) : Parse Span := fun c =>
  .ok (⟨start.start,max c.prevStop start.stop⟩, c)

/-- A number for a node that is complete. -/
def freshId : Parse NodeId := fun c =>
  .ok (c.nextId, { c with nextId := c.nextId + 1 })

/-- A complete expression. -/
def node (form : ExprForm) (span : Span) : Parse Expr := do
  return ⟨← freshId,span,form⟩

/-- Runs `p` if a token in the class of `kind` comes next, which is taken first. -/
def optionally {α : Type} (kind : Kind) (p : Parse α) : Parse (Option α) := do
  if ← eat kind then
    let a ← p
    return some a
  else
    return none

/-- The number of tokens that are left. -/
def remaining : Parse Nat := fun c =>
  .ok (c.tokens.length, c)

/-- Elements separated by commas, with or without a comma at the end, up to a token in the class of
`close`, which is not taken; at most `n + 1` elements. -/
def sepUntilWithin {α : Type} (close : Kind) (element : Parse α) : Nat → Parse (List α)
  | 0 => do
    if ← check close then return []
    let a ← element
    return [a]
  | n + 1 => do
    if ← check close then return []
    let a ← element
    if ← eat (.punct .comma) then
      let as ← sepUntilWithin close element n
      return a :: as
    else
      return [a]

/-- Elements separated by commas, with or without a comma at the end, up to a token in the class of
`close`, which is not taken. There are at most as many elements as tokens. -/
def sepUntil {α : Type} (close : Kind) (element : Parse α) : Parse (List α) := do
  sepUntilWithin close element (← remaining)

/-- Runs `element` until the next token is in the class of one of `closes`, at most `n` times. -/
def manyWithin {α : Type} (closes : List Kind) (element : Parse α) : Nat → Parse (List α)
  | 0 => do
    let _ ← peek
    return []
  | n + 1 => do
    let t ← peek
    if closes.any t.kind.sameClass then return []
    let a ← element
    let as ← manyWithin closes element n
    return a :: as

/-- Runs `element` until the next token is in the class of one of `closes`. It runs at most as often
as there are tokens. -/
def many {α : Type} (closes : List Kind) (element : Parse α) : Parse (List α) := do
  manyWithin closes element (← remaining)

/-- Extends `a` by `step` as long as it can be extended, at most `n + 1` times. -/
def extendWithin {α : Type} (step : α → Parse (Option α)) : Nat → α → Parse α
  | 0, a => do
    match ← step a with
    | some b => return b
    | none => return a
  | n + 1, a => do
    match ← step a with
    | some b => extendWithin step n b
    | none => return a

/-- Extends `a` by `step` as long as it can be extended. It is extended at most as often as there
are tokens. -/
def extend {α : Type} (step : α → Parse (Option α)) (a : α) : Parse α := do
  extendWithin step (← remaining) a

end Parse

end Opal
