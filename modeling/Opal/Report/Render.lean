import Opal.Report.Diagnostic
import Opal.Report.Lines

/-!
# Rendering diagnostics

A diagnostic as text: its message, the lines of the file that its label covers with the covered part marked, and its note. A label
within one line is underlined; a label over several lines is bracketed on the left.
-/

namespace Opal

/-- A named text. -/
structure SourceFile where
  name : String
  source : String
deriving DecidableEq, Repr

def times (n : Nat) (c : Char) : String :=
  String.ofList (List.replicate n c)

/-- The part of a file that a label covers: the lines of the file, the indices of the first and the
last line covered, and the label. -/
structure Snippet where
  lines : List Line
  first : Nat
  last : Nat
  label : Label

namespace Snippet

/-- The part of a source text that a label covers. -/
def ofSource (source : String) (label : Label) : Snippet :=
  let lines := Line.ofSource source
  ⟨lines,Line.indexAt lines label.span.start,Line.indexAt lines label.span.stop,label⟩

def line (s : Snippet) (i : Nat) : Line :=
  s.lines[i]?.getD ⟨0,[]⟩

def offset (s : Snippet) : Nat :=
  s.label.span.start - (s.line s.first).start

def stopOffset (s : Snippet) : Nat :=
  s.label.span.stop - (s.line s.last).start

def numberWidth (s : Snippet) : Nat :=
  (toString (max s.first s.last + 1)).length

/-- The margin of a line of the rendering that shows no line of the file. -/
def gutter (s : Snippet) : String :=
  times (s.numberWidth + 1) ' '

/-- The margin of the line with index `i`: its number. -/
def numbered (s : Snippet) (i : Nat) : String :=
  let n := toString (i + 1)
  times (s.numberWidth - n.length) ' ' ++ n ++ " "

/-- The message of the label, after what marks its end. -/
def trailing (s : Snippet) : String :=
  if s.label.message.isEmpty then "" else " " ++ s.label.message

/-- Where the label starts, in words. -/
def locus (s : Snippet) (file : SourceFile) : String :=
  let l := s.line s.first
  s.gutter ++ "┌─ " ++ file.name ++ ":" ++ toString (s.first + 1) ++ ":" ++ toString (l.columnNumber s.label.span.start)

/-- What stands under a column where bytes from `a` up to `z` are underlined. Nothing stands after the
underlined part. -/
def underlined (a z : Nat) (c : Column) : String :=
  if max a c.offset < min z (c.offset + c.size) then times c.width '^'
  else if c.offset < z then times c.width ' '
  else ""

/-- The underline of a label within one line. There is a column after the last character, and at least
one byte counts as covered. -/
def underline (s : Snippet) : String :=
  let l := s.line s.first
  let z := max s.stopOffset (s.offset + 1)
  let after : Column := ⟨byteLength l.shown,1,1,' '⟩
  String.join ((l.columns ++ [after]).map (underlined s.offset z))

/-- The lines that show a label within one line. -/
def singleLine (s : Snippet) : List String :=
  [s.gutter ++ "│", s.numbered s.first ++ "│ " ++ (s.line s.first).text, s.gutter ++ "│ " ++ s.underline ++ s.trailing]

/-- A rule as wide as the characters of a line that start before `stop`. -/
def rule (l : Line) (stop : Nat) : String :=
  String.join ((l.columns.takeWhile fun c => c.offset < stop).map fun c => times c.width '─')

/-- The lines that show where a label over several lines starts. The bracket starts beside the line if
only white space stands before the label. -/
def opening (s : Snippet) : List String :=
  let l := s.line s.first
  if s.offset ≤ l.indentation then [s.numbered s.first ++ "│ ╭ " ++ l.text]
  else
    [s.numbered s.first ++ "│   " ++ l.text, s.gutter ++ "│ ╭" ++ rule l (s.offset + 1) ++ "^"]

/-- How many lines after the first line of a label are shown. -/
def contextAfter : Nat := 3

/-- How many lines before the last line of a label are shown. -/
def contextBefore : Nat := 1

/-- What a line is to a label over several lines. -/
inductive Role where
  | opens
  | inside
  | closes
  | outside
deriving DecidableEq, Repr

/-- What the line with index `i` is to the label. -/
def role (s : Snippet) (i : Nat) : Role :=
  if i = s.first then .opens
  else if i = s.last then .closes
  else if s.first < i ∧ i < s.last then .inside
  else .outside

/-- Whether the line with index `i` is shown by itself: it holds an end of the label, or the label runs
through it near one of its ends. -/
def isShown (s : Snippet) (i : Nat) : Bool :=
  match s.role i with
  | .opens | .closes => true
  | .inside => i - s.first ≤ contextAfter || s.last - i ≤ contextBefore
  | .outside => false

/-- The line that shows where a label over several lines ends. -/
def closing (s : Snippet) : String :=
  s.gutter ++ "│ ╰" ++ rule (s.line s.last) s.stopOffset ++ "^" ++ s.trailing

/-- The lines that show the line with index `i`. -/
def row (s : Snippet) (i : Nat) : List String :=
  let bare := s.numbered i ++ "│   " ++ (s.line i).text
  let barred := s.numbered i ++ "│ │ " ++ (s.line i).text
  match s.role i with
  | .opens => s.opening
  | .inside => [barred]
  | .closes => [barred, s.closing]
  | .outside => [bare]

/-- What is shown between the lines with indices `i` and `j`, where no line between them is shown by
itself: a single line is shown all the same, and several lines are left out. -/
def between (s : Snippet) (i j : Nat) : List String :=
  if j = i + 2 then s.row (i + 1)
  else if i + 2 < j then [s.gutter ++ "· │"]
  else []

/-- The lines that show the lines with these indices. -/
def rows (s : Snippet) : List Nat → List String
  | [] => []
  | [i] => s.row i
  | i :: j :: rest => s.row i ++ s.between i j ++ rows s (j :: rest)

/-- The indices of the lines from one end of the label to the other, in order. A label may end before it
starts. -/
def extent (s : Snippet) : List Nat :=
  (List.range (max s.first s.last + 1)).drop (min s.first s.last)

/-- The lines that show a label over several lines. -/
def multiLine (s : Snippet) : List String :=
  (s.gutter ++ "│  ") :: s.rows (s.extent.filter s.isShown)

/-- The lines that show the label and the note. -/
def render (s : Snippet) (note : Option String) : List String :=
  let (body, separator) :=
    if s.first = s.last then (s.singleLine, s.gutter ++ "│")
    else (s.multiLine, s.gutter ++ "│  ")
  body ++ match note with
    | none => []
    | some n => [separator, s.gutter ++ "= " ++ n]

end Snippet

def unlines (lines : List String) : String :=
  String.join (lines.map (· ++ "\n"))

def Diagnostic.header (d : Diagnostic) : String :=
  match d.code with
  | none => "error: " ++ d.message
  | some code => "error[" ++ code ++ "]: " ++ d.message

/-- A diagnostic about a file as text. Where a label has no file to point into, nothing is shown. -/
def Diagnostic.render (d : Diagnostic) (file? : Option SourceFile) : String :=
  match d.label, file? with
  | none, _ => unlines [d.header, ""]
  | some _, none => ""
  | some label, some file =>
    let s := Snippet.ofSource file.source label
    unlines ([d.header, s.locus file] ++ s.render d.note ++ [""])

end Opal
