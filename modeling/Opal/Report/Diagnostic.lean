import Opal.Check.Error
import Opal.Syntax.Error

/-!
# Diagnostics

What is shown to the user of the checker: a message, which may come with a code, a place in a file and
a note.
-/

namespace Opal

/-- What ends a run before the meaning of the module is looked at. -/
inductive Failure where
  | lexical (message : String) (span : Span)
  | syntactic (message : String) (span : Span)
  | io (message : String)
deriving DecidableEq, Repr

/-- An error of the front end as a failure of the run. -/
def SyntaxError.failure (e : SyntaxError) : Failure :=
  if e.isLexical then .lexical e.message e.span else .syntactic e.message e.span

/-- A span as it is quoted in the text of a failure. -/
def Span.quoted (s : Span) : String :=
  "Span \x7b start: " ++ toString s.start ++ ", end: " ++ toString s.stop ++ " \x7d"

def Failure.display : Failure → String
  | lexical message span => "Lexer error at " ++ span.quoted ++ ": " ++ message
  | syntactic message span => "Parser error at " ++ span.quoted ++ ": " ++ message
  | io message => "IO error: " ++ message

/-- A place in a file with a message, which may be empty. -/
structure Label where
  span : Span
  message : String
deriving DecidableEq, Repr

/-- What is shown to the user. -/
structure Diagnostic where
  code : Option String
  message : String
  label : Option Label
  note : Option String
deriving DecidableEq, Repr

def Failure.diagnostic : Failure → Diagnostic
  | lexical message span => ⟨none,"Lexer error",some ⟨span,message⟩,none⟩
  | syntactic message span => ⟨none,"Syntax error",some ⟨span,message⟩,none⟩
  | io message => ⟨none,"IO error: " ++ message,none,none⟩

def SemanticError.diagnostic (e : SemanticError) : Diagnostic :=
  ⟨some e.cause.code,e.cause.message,some ⟨e.span,""⟩, some (e.cause.category.display ++ " error")⟩

end Opal
