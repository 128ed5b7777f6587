import Opal.Token.Kind

/-!
# Pieces of source text

A source text is cut from left to right into pieces. A piece is a gap (white space or a comment),
a token, or a run of characters that starts neither. The cut depends only on the characters ahead,
and every piece holds at least one character, so the pieces tile the text.
-/

namespace Opal

/-- White space: space, tab, line feed, carriage return and form feed. -/
def isBlank (c : Char) : Bool :=
  c == ' ' || c == '\t' || c == '\n' || c == '\r' || c == '\x0c'

def isDigit (c : Char) : Bool :=
  '0' ≤ c && c ≤ '9'

/-- An ASCII letter or an underscore: what an identifier starts with. -/
def isIdentStart (c : Char) : Bool :=
  ('a' ≤ c && c ≤ 'z') || ('A' ≤ c && c ≤ 'Z') || c == '_'

/-- What an identifier goes on with. -/
def isIdentPart (c : Char) : Bool :=
  isIdentStart c || isDigit c

def isDecimalPart (c : Char) : Bool :=
  isDigit c || c == '_'

def isHexPart (c : Char) : Bool :=
  isDigit c || ('a' ≤ c && c ≤ 'f') || ('A' ≤ c && c ≤ 'F') || c == '_'

def isBinaryPart (c : Char) : Bool :=
  c == '0' || c == '1' || c == '_'

/-- The number of leading characters of `cs` that satisfy `p`. -/
def runLength (p : Char → Bool) : List Char → Nat
  | [] => 0
  | c :: cs => if p c then runLength p cs + 1 else 0

/-- The number of characters of a block comment's body: as many as possible, each either a character
other than `*`, or a `*` with a following character other than `/`. -/
def commentBody : List Char → Nat
  | [] => 0
  | [c] => if c == '*' then 0 else 1
  | c :: d :: cs =>
    if c == '*' then
      if d == '/' then 0 else commentBody cs + 2
    else commentBody (d :: cs) + 1

/-- The number of characters of a string literal's body: as many as possible, each either a
character other than a double quote and a backslash, or a backslash with a following character other than a
line feed. -/
def stringBody : List Char → Nat
  | [] => 0
  | [c] => if c == '"' || c == '\\' then 0 else 1
  | c :: d :: cs =>
    if c == '"' then 0
    else if c == '\\' then
      if d == '\n' then 0 else stringBody cs + 2
    else stringBody (d :: cs) + 1

/-- What the characters ahead form. -/
inductive PieceClass where
  | gap
  | word
  | text (c : TextClass)
  | punct (p : Punct)
  | fault
deriving DecidableEq, Repr

namespace PieceClass

/-- The piece that starts with a slash. An unfinished block comment is a fault that ends where its
body ends. -/
def afterSlash : List Char → PieceClass × Nat
  | '/' :: cs => (gap, runLength (· != '\n') cs + 1)
  | '*' :: cs =>
    let n := commentBody cs
    match cs.drop n with
    | '*' :: '/' :: _ => (gap, n + 3)
    | _ => (fault, n + 1)
  | _ => (punct .slash, 0)

/-- The piece that starts with a double quote. An unfinished string literal is a fault that ends
where its body ends. -/
def afterDoubleQuote (cs : List Char) : PieceClass × Nat :=
  let n := stringBody cs
  match cs.drop n with
  | '"' :: _ => (text .string, n + 1)
  | _ => (fault, n)

/-- The piece that starts with a single quote: a character literal holds one character, or a
backslash and one character; the quote alone is a fault otherwise. -/
def afterSingleQuote : List Char → PieceClass × Nat
  | '\\' :: c :: '\'' :: _ => if c == '\n' then (fault, 0) else (text .char, 3)
  | c :: '\'' :: _ => if c == '\'' || c == '\\' then (fault, 0) else (text .char, 2)
  | _ => (fault, 0)

/-- The piece that starts with the digit `c`: a based literal needs at least one character after
its mark, and is a decimal literal otherwise. -/
def afterDigit (c : Char) (cs : List Char) : PieceClass × Nat :=
  let decimal := (text .decimal, runLength isDecimalPart cs)
  if c == '0' then
    match cs with
    | 'x' :: ds => if runLength isHexPart ds = 0 then decimal else (text .hex, runLength isHexPart ds + 1)
    | 'b' :: ds =>
      if runLength isBinaryPart ds = 0 then decimal else (text .binary, runLength isBinaryPart ds + 1)
    | _ => decimal
  else decimal

/-- The piece that starts with an operator, the longer one first. -/
def afterOperator (c : Char) (cs : List Char) : PieceClass × Nat :=
  match cs.head?.bind (Punct.double? c) with
  | some p => (punct p, 1)
  | none =>
    match Punct.single? c with
    | some p => (punct p, 0)
    | none => (fault, 0)

/-- The class of the piece that starts with `c` and goes on in `cs`, and the number of characters of
`cs` that belong to it. -/
def ahead (c : Char) (cs : List Char) : PieceClass × Nat :=
  if isBlank c then (gap, runLength isBlank cs)
  else if c == '/' then afterSlash cs
  else if c == '"' then afterDoubleQuote cs
  else if c == '\'' then afterSingleQuote cs
  else if isDigit c then afterDigit c cs
  else if isIdentStart c then (word, runLength isIdentPart cs)
  else afterOperator c cs

end PieceClass

/-- A piece of source text. -/
structure Piece where
  cls : PieceClass
  chars : List Char
deriving DecidableEq, Repr

namespace Piece

/-- The pieces of a text of which the first `skip` characters belong to the piece before. -/
def tileFrom : Nat → List Char → List Piece
  | _, [] => []
  | skip + 1, _ :: cs => tileFrom skip cs
  | 0, c :: cs =>
    let (cls, extra) := PieceClass.ahead c cs
    ⟨cls,c :: cs.take extra⟩ :: tileFrom extra cs

/-- The pieces of a text, in order. -/
def tile (cs : List Char) : List Piece :=
  tileFrom 0 cs

theorem tileFrom_eq_tile_drop (skip : Nat) (cs : List Char) : tileFrom skip cs = tile (cs.drop skip) := by
  induction cs generalizing skip with
  | nil => cases skip <;> rfl
  | cons c cs ih =>
    cases skip with
    | zero => rfl
    | succ skip => simpa [tileFrom] using ih skip

/-- The pieces of a text, put together again, are the text. -/
theorem tile_flatten (cs : List Char) : ((tile cs).map chars).flatten = cs := by
  suffices h : ∀ skip, ((tileFrom skip cs).map chars).flatten = cs.drop skip by simpa [tile] using h 0
  induction cs with
  | nil => intro skip; cases skip <;> rfl
  | cons c cs ih =>
    intro skip
    cases skip with
    | zero => simp [tileFrom, ih]
    | succ skip => simpa [tileFrom] using ih skip

end Piece

end Opal
