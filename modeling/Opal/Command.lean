import Opal.Session

/-!
# The command line

What the command does with its arguments, apart from reading the file and writing the output.
-/

namespace Opal

/-- What the arguments of the command ask for. -/
inductive Request where
  | version
  | check (path : String) (options : Options)
  /-- The arguments make no sense. -/
  | invalid
deriving DecidableEq, Repr

/-- A switch on the command line. -/
inductive Switch where
  | dumpTokens
  | dumpTree
  | dumpTypes
  | verbose
  | version
deriving DecidableEq, Repr

namespace Switch

/-- The switch with this long name, which starts with two dashes. -/
def ofLong? : String → Option Switch
  | "--dump-tokens" => some dumpTokens
  | "--dump-ast" => some dumpTree
  | "--dump-types" => some dumpTypes
  | "--verbose" => some verbose
  | "--version" => some version
  | _ => none

/-- The switch with this letter. -/
def ofShort? : Char → Option Switch
  | 'v' => some verbose
  | 'V' => some version
  | _ => none

/-- The switches that an argument stands for, in order: after two dashes it is one long name, after a
single dash every letter is a switch. What names no switch stands for `none`. -/
def ofArg (arg : String) : List (Option Switch) :=
  match arg.toList with
  | '-' :: '-' :: _ => [ofLong? arg]
  | chars => (chars.drop 1).map ofShort?

end Switch

namespace Request

def noOptions : Options :=
  ⟨false,false,false,false⟩

/-- The options with the one that a switch sets. Nothing is set twice, and no option is the version. -/
def setOption? (options : Options) : Switch → Option Options
  | .dumpTokens => if options.dumpTokens then none else some { options with dumpTokens := true }
  | .dumpTree => if options.dumpTree then none else some { options with dumpTree := true }
  | .dumpTypes => if options.dumpTypes then none else some { options with dumpTypes := true }
  | .verbose => if options.verbose then none else some { options with verbose := true }
  | .version => none

/-- The options after some switches, or the request that one of them decides: the first that asks for the
version, or that makes no sense, decides whatever comes after it. -/
def setOptions (options : Options) : List (Option Switch) → Except Request Options
  | [] => .ok options
  | none :: _ => .error .invalid
  | some .version :: _ => .error .version
  | some switch :: rest =>
    match setOption? options switch with
    | some options => setOptions options rest
    | none => .error .invalid

/-- Whether an argument holds switches rather than a path: a single dash is a path. -/
def isOption (arg : String) : Bool :=
  arg.toList.head? == some '-' && arg != "-"

/-- The request that arguments make where a path and options were given before. After `--` every
argument is a path. There is one path, and it is not empty. -/
def parse (path : Option String) (options : Options) (ended : Bool) : List String → Request
  | [] =>
    match path with
    | some p => .check p options
    | none => .invalid
  | arg :: rest =>
    if !ended && arg = "--" then parse path options true rest
    else if !ended && isOption arg then
      match setOptions options (Switch.ofArg arg) with
      | .ok options => parse path options ended rest
      | .error request => request
    else if path.isSome || arg.isEmpty then .invalid
    else parse (some arg) options ended rest

def ofArgs (args : List String) : Request :=
  parse none noOptions false args

end Request

/-- Why a file cannot be read. -/
inductive ReadError where
  | missing
  | directory
  /-- A part of the path that has parts after it is a file. -/
  | notDirectory
  | nameTooLong
  | notText
  /-- A reason that the system gives. -/
  | other (reason : String)
deriving DecidableEq, Repr

def ReadError.message : ReadError → String
  | missing => "No such file or directory (os error 2)"
  | directory => "Is a directory (os error 21)"
  | notDirectory => "Not a directory (os error 20)"
  | nameTooLong => "File name too long (os error 36)"
  | notText => "stream did not contain valid UTF-8"
  | other reason => reason

/-- The end of a run of the command: its exit code, and what it writes to its two outputs. -/
structure Outcome where
  exitCode : Nat
  out : String
  err : String
deriving DecidableEq, Repr

namespace Command

def versionLine : String :=
  "opalc 0.1.0\n"

def usage : String :=
  "Usage: opalc [OPTIONS] <INPUT>\n"

/-- The outcome of a check of a file that was read. -/
def checkFile (options : Options) (file : SourceFile) : Outcome :=
  let (result, log) := Session.check options file
  let clean := match result with
    | .ok c => c.findings.isClean
    | .error _ => false
  ⟨if clean then 0 else 1,"",log⟩

/-- The outcome where a file cannot be read. -/
def unreadable (path : String) (e : ReadError) : Outcome :=
  ⟨1,"","error: cannot read " ++ path ++ ": " ++ e.message ++ "\n"⟩

/-- The outcome of a request, given how files are read. -/
def run {m : Type → Type} [Monad m] (read : String → m (Except ReadError String)) : Request → m Outcome
  | .version => return ⟨0,versionLine,""⟩
  | .invalid => return ⟨2,"",usage⟩
  | .check path options => do
    match ← read path with
    | .ok source => return checkFile options ⟨path,source⟩
    | .error e => return unreadable path e

/-- The text of a file with these bytes. -/
def decode (bytes : ByteArray) : Except ReadError String :=
  match String.fromUTF8? bytes with
  | some text => .ok text
  | none => .error .notText

end Command

end Opal
