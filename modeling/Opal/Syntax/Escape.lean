import Opal.Syntax.Error

/-!
# Escapes in literals

Inside the quotes of a character or string literal, a backslash and the character after it stand
for one character.
-/

namespace Opal.Escape

/-- The character that a backslash followed by `c` stands for. -/
def meaning? : Char → Option Char
  | 'n' => some '\n'
  | 't' => some '\t'
  | 'r' => some '\r'
  | '0' => some '\x00'
  | '\\' => some '\\'
  | '\'' => some '\''
  | '"' => some '"'
  | _ => none

/-- The characters that the text between the quotes of a literal stands for. -/
def decode : List Char → Except SyntaxCause (List Char)
  | [] => .ok []
  | '\\' :: [] => .error .unterminatedEscape
  | '\\' :: c :: cs =>
    match meaning? c with
    | some d => (decode cs).map (d :: ·)
    | none => .error (.unknownEscape c)
  | c :: cs => (decode cs).map (c :: ·)

/-- The text between the quotes of a literal. -/
def unquoted (literal : String) : List Char :=
  (literal.toList.drop 1).dropLast

def string (literal : String) : Except SyntaxCause String :=
  (decode (unquoted literal)).map String.ofList

def character (literal : String) : Except SyntaxCause Char :=
  match decode (unquoted literal) with
  | .ok [c] => .ok c
  | .ok _ => .error .invalidCharacter
  | .error cause => .error cause

/-- A character as it is written between the quotes of a literal. -/
def written : Char → List Char
  | '\n' => ['\\', 'n']
  | '\t' => ['\\', 't']
  | '\r' => ['\\', 'r']
  | '\x00' => ['\\', '0']
  | '\\' => ['\\', '\\']
  | '\'' => ['\\', '\'']
  | '"' => ['\\', '"']
  | c => [c]

/-- Characters as they are written between the quotes of a literal. -/
def encode (cs : List Char) : List Char :=
  cs.flatMap written

/-- Characters as a literal between quotes of the kind `quote`. -/
def literal (quote : Char) (cs : List Char) : String :=
  String.ofList (quote :: encode cs ++ [quote])

@[simp] theorem encode_nil : encode [] = [] := rfl

@[simp] theorem encode_cons (c : Char) (cs : List Char) : encode (c :: cs) = written c ++ encode cs := by
  simp [encode]

theorem decode_written_append (c : Char) (cs : List Char) : decode (written c ++ cs) = (decode cs).map (c :: ·) := by
  unfold written
  split
  case h_8 =>
    rw [List.singleton_append, decode] <;> simp_all
  all_goals simp [decode, meaning?]

theorem decode_encode (cs : List Char) : decode (encode cs) = .ok cs := by
  induction cs with
  | nil => rfl
  | cons c cs ih => rw [encode_cons, decode_written_append, ih]; rfl

end Opal.Escape
