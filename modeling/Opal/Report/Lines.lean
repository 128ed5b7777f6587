import Opal.Source.Span
import Opal.Text.Width

/-!
# Lines and columns

A source text as lines, each with the byte offset it starts at, and a line as columns of a screen.
-/

namespace Opal

/-- A line of a source text: the offset of its first byte, and its characters without the line feed. -/
structure Line where
  start : Nat
  chars : List Char
deriving DecidableEq, Repr

/-- Characters that are not shown at the end of a line. -/
def isLineEnd (c : Char) : Bool :=
  c == '\n' || c == '\r' || c == '\x00'

/-- White space of any alphabet. -/
def isSpace (c : Char) : Bool :=
  let n := c.toNat
  (0x09 ≤ n && n ≤ 0x0d) || n == 0x20 || n == 0x85 || n == 0xa0 || n == 0x1680 ||
    (0x2000 ≤ n && n ≤ 0x200a) || n == 0x2028 || n == 0x2029 || n == 0x202f || n == 0x205f ||
    n == 0x3000

/-- A character on the screen: its offset in the line, the bytes and the columns it takes. -/
structure Column where
  offset : Nat
  size : Nat
  width : Nat
  char : Char
deriving DecidableEq, Repr

/-- The distance between tab stops. -/
def tabWidth : Nat := 4

/-- The columns that a character takes when it starts at `column`: a tab goes to the next tab stop, and
every other character has the same width everywhere. -/
def charWidth (column : Nat) (c : Char) : Nat :=
  if c = '\t' then tabWidth - column % tabWidth else glyphWidth c

namespace Line

/-- The lines of a text whose current line starts at `start` and has `before`, in reverse, so far. The
next character is at `pos`. -/
def split (start pos : Nat) (before : List Char) : List Char → List Line
  | [] => [⟨start,before.reverse⟩]
  | c :: cs =>
    let next := pos + c.utf8Size
    if c = '\n' then ⟨start,before.reverse⟩ :: split next next [] cs
    else split start next (c :: before) cs

/-- The lines of a source text. A line feed at the end is followed by an empty line. -/
def ofSource (source : String) : List Line :=
  split 0 0 [] source.toList

/-- The index of the line that `pos` belongs to: the last line that starts at or before it. -/
def indexAt (lines : List Line) (pos : Nat) : Nat :=
  (lines.takeWhile fun l => l.start ≤ pos).length - 1

/-- The characters of a line that are shown. -/
def shown (l : Line) : List Char :=
  (l.chars.reverse.dropWhile isLineEnd).reverse

/-- The number of characters of `cs` that end at or before the offset `stop`, where `cs` starts at
`offset`. -/
def charsBefore (stop offset : Nat) : List Char → Nat
  | [] => 0
  | c :: cs =>
    if offset + c.utf8Size ≤ stop then charsBefore stop (offset + c.utf8Size) cs + 1 else 0

/-- The number of the column at `pos`, from 1: how many characters of the line stand before it, and
one. -/
def columnNumber (l : Line) (pos : Nat) : Nat :=
  charsBefore pos l.start l.chars + 1

/-- Characters on the screen, the first of which is at `offset` in the line and at `column`. -/
def layout (offset column : Nat) : List Char → List Column
  | [] => []
  | c :: cs =>
    let width := charWidth column c
    ⟨offset,c.utf8Size,width,c⟩ :: layout (offset + c.utf8Size) (column + width) cs

def columns (l : Line) : List Column :=
  layout 0 0 l.shown

def text (l : Line) : String :=
  String.join (l.columns.map fun c =>
    if c.char = '\t' then String.ofList (List.replicate c.width ' ') else c.char.toString)

/-- The number of bytes of white space that a line starts with. -/
def indentation (l : Line) : Nat :=
  byteLength (l.shown.takeWhile isSpace)

end Line

end Opal
