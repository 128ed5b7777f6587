import Opal.Text.Extending
import Opal.Text.Hidden

/-!
# Quoted text

Characters and strings in quotes. What cannot stand there, or could not be seen there, is written as an
escape.
-/

namespace Opal.Quoted

/-- The digits of a number in base 16, in lower case. -/
def hex (n : Nat) : String :=
  String.ofList (Nat.toDigits 16 n)

/-- Whether a character is written by its code point: it has no shape, or would be drawn on what stands
before it. -/
def isByCode (c : Char) : Bool :=
  isHidden c || isExtending c

/-- A character between quotes of the kind `quote`. The other kind of quote stands as it is. -/
def escape (quote c : Char) : String :=
  if c = '\x00' then "\\0"
  else if c = '\t' then "\\t"
  else if c = '\r' then "\\r"
  else if c = '\n' then "\\n"
  else if c = '\\' then "\\\\"
  else if c = quote then "\\" ++ c.toString
  else if isByCode c then "\\u\x7b" ++ hex c.toNat ++ "\x7d"
  else c.toString

def char (c : Char) : String :=
  "'" ++ escape '\'' c ++ "'"

def string (s : String) : String :=
  "\"" ++ String.join (s.toList.map (escape '"')) ++ "\""

end Opal.Quoted
