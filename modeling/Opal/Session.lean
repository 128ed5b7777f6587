import Opal.Check.Module
import Opal.Report.Render
import Opal.Syntax.Grammar
import Opal.Syntax.Outline

/-!
# Checking a source file

A source file goes through scanning, parsing and checking; what is found on the way is written to a
log. An error of the front end ends the run; errors of meaning are written and the run goes on.
-/

namespace Opal

/-- What is written to the log besides diagnostics. -/
structure Options where
  dumpTokens : Bool
  dumpTree : Bool
  dumpTypes : Bool
  verbose : Bool
deriving DecidableEq, Repr

/-- A module with what was learned about it. -/
structure Checked where
  mod : Module
  findings : Findings

namespace Session

/-- A part of the log between a heading and an end mark. -/
def framed (title body : String) : String :=
  "=== " ++ title ++ " ===\n" ++ body ++ "=== End " ++ title ++ " ===\n\n"

def tokenDump (tokens : List Token) : String :=
  framed "Tokens" (unlines (tokens.map fun t => t.outline.inline))

def treeDump (m : Module) : String :=
  framed "AST" (m.outline.spread ++ "\n")

def typeDump (a : Findings) : String :=
  framed "Types" a.listing

def summary (a : Findings) : String :=
  "Checked " ++ toString a.introduces.size ++ " declarations: " ++ toString a.errors.size ++ " error(s)\n"

/-- What is written to the log after a module was parsed. -/
def findingsLog (options : Options) (file : SourceFile) (c : Checked) : String :=
  (if options.dumpTree then treeDump c.mod else "") ++
    String.join (c.findings.errors.toList.map fun e => e.diagnostic.render (some file)) ++
    (if options.dumpTypes then typeDump c.findings else "") ++
    (if options.verbose then summary c.findings else "")

/-- The end of a run by an error of the front end: it is written to the log. -/
def abort (file : SourceFile) (log : String) (e : SyntaxError) : Except SyntaxError Checked × String :=
  (.error e, log ++ e.failure.diagnostic.render (some file))

/-- Parses and checks a file after `log` was written. -/
def parseAndCheck (options : Options) (file : SourceFile) (log : String) : Except SyntaxError Checked × String :=
  match Module.parse file.source with
  | .error e => abort file log e
  | .ok m =>
    let c : Checked := ⟨m,m.check⟩
    (.ok c, log ++ findingsLog options file c)

/-- Checks a file: the result of the run, and its log. A dump of the tokens looks at all of them
before anything else. -/
def check (options : Options) (file : SourceFile) : Except SyntaxError Checked × String :=
  if options.dumpTokens then
    match tokenize file.source with
    | .error e => abort file "" e
    | .ok tokens => parseAndCheck options file (tokenDump tokens)
  else
    parseAndCheck options file ""

end Session

end Opal
