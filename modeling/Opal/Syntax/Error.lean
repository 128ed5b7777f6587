import Opal.Source.Span
import Opal.Token.Kind

/-!
# Errors of the front end

Why a source text is not a module: either some characters form no token, or the tokens do not
follow the grammar.
-/

namespace Opal

/-- What the grammar calls for at a token. -/
inductive Expected where
  | kind (k : Kind)
  | declaration
  | identifier
  | type
  | expression
deriving DecidableEq, Repr

namespace Expected

def display : Expected → String
  | kind k => k.display
  | declaration => "declaration"
  | identifier => "identifier"
  | type => "type"
  | expression => "expression"

end Expected

/-- Why a source text is rejected before its meaning is looked at. -/
inductive SyntaxCause where
  /-- The characters form no token. -/
  | unexpected (slice : String)
  /-- The grammar calls for one thing and the source has another. -/
  | expected (what : Expected) (found : Kind)
  /-- A backslash is followed by a character that names no escape. -/
  | unknownEscape (c : Char)
  /-- A literal ends in a backslash. -/
  | unterminatedEscape
  /-- A character literal does not hold exactly one character. -/
  | invalidCharacter
deriving DecidableEq, Repr

/-- A cause of rejection with the span it concerns. -/
structure SyntaxError where
  cause : SyntaxCause
  span : Span
deriving DecidableEq, Repr

namespace SyntaxError

/-- An error is lexical when its characters form no token; every other error concerns the grammar. -/
def isLexical (e : SyntaxError) : Bool :=
  match e.cause with
  | .unexpected _ => true
  | _ => false

def message (e : SyntaxError) : String :=
  match e.cause with
  | .unexpected slice => "unexpected character '" ++ slice ++ "'"
  | .expected what found => "expected " ++ what.display ++ ", found " ++ found.display
  | .unknownEscape c => "unknown escape '\\" ++ c.toString ++ "'"
  | .unterminatedEscape => "unterminated escape"
  | .invalidCharacter => "invalid character literal"

end SyntaxError

end Opal
