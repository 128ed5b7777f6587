import Opal.Syntax.Error
import Opal.Token.Piece

/-!
# Scanning

The tokens and lexical errors of a source text, in source order. Gaps are left out; every other
piece is a token or an error at the place where it stands.
-/

namespace Opal

/-- A token: its kind and the bytes it covers. -/
structure Token where
  kind : Kind
  span : Span
deriving DecidableEq, Repr

/-- A token, or the characters at its place that form none. -/
abbrev Scanned := Except SyntaxError Token

/-- A word is a keyword if it is spelled like one, and an identifier otherwise. -/
def Kind.ofWord (word : String) : Kind :=
  match Keyword.ofSpelling? word with
  | some k => .keyword k
  | none => .text .identifier word

namespace Piece

/-- What a piece that starts at byte `start` stands for; a gap stands for nothing. -/
def scanned? (start : Nat) (p : Piece) : Option Scanned :=
  let span : Span := ⟨start,start + byteLength p.chars⟩
  let text := String.ofList p.chars
  match p.cls with
  | .gap => none
  | .word => some (.ok ⟨.ofWord text,span⟩)
  | .text c => some (.ok ⟨.text c text,span⟩)
  | .punct q => some (.ok ⟨.punct q,span⟩)
  | .fault => some (.error ⟨.unexpected text,span⟩)

/-- What a run of pieces that starts at byte `start` stands for. -/
def scanFrom (start : Nat) : List Piece → List Scanned
  | [] => []
  | p :: ps => (p.scanned? start).toList ++ scanFrom (start + byteLength p.chars) ps

end Piece

/-- The tokens and lexical errors of a source text, in order. -/
def scan (source : String) : List Scanned :=
  Piece.scanFrom 0 (Piece.tile source.toList)

/-- The token that stands after the last character of a source text. -/
def endOfInput (source : String) : Token :=
  let size := byteLength source.toList
  ⟨.eof,⟨size,size⟩⟩

/-- A lexical error with the tokens between it and the next one. -/
abbrev Fault := SyntaxError × List Token

/-- The tokens up to the first lexical error, and the errors. -/
def splitAtErrors : List Scanned → List Token × List Fault
  | [] => ([], [])
  | .error e :: rest => let (ts, faults) := splitAtErrors rest; ([], (e, ts) :: faults)
  | .ok t :: rest => let (ts, faults) := splitAtErrors rest; (t :: ts, faults)

/-- What stands before the first of the errors: it, or `last` if there are none. -/
def endingAt (last : Token) : List Fault → Scanned
  | [] => .ok last
  | (e, _) :: _ => .error e

/-- All tokens of a source text with the end of the input last, or its first lexical error. -/
def tokenize (source : String) : Except SyntaxError (List Token) :=
  let (ts, faults) := splitAtErrors (scan source)
  (endingAt (endOfInput source) faults).map fun last => ts ++ [last]

end Opal
