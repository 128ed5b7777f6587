/-!
# Token kinds

The kinds of tokens of the language: keywords, punctuation, tokens that carry their own source
text, and the end of the input.
-/

namespace Opal

/-- The reserved words of the grammar. -/
inductive Keyword where
  | letK | mutK | constK | defK | anonK
  | ifK | elseK | whileK | returnK
  | trueK | falseK
deriving DecidableEq, Repr

namespace Keyword

def all : List Keyword :=
  [letK, mutK, constK, defK, anonK, ifK, elseK, whileK, returnK, trueK, falseK]

def spelling : Keyword → String
  | letK => "let"
  | mutK => "mut"
  | constK => "const"
  | defK => "def"
  | anonK => "anon"
  | ifK => "if"
  | elseK => "else"
  | whileK => "while"
  | returnK => "return"
  | trueK => "true"
  | falseK => "false"

def name : Keyword → String
  | letK => "Let"
  | mutK => "Mut"
  | constK => "Const"
  | defK => "Def"
  | anonK => "Anon"
  | ifK => "If"
  | elseK => "Else"
  | whileK => "While"
  | returnK => "Return"
  | trueK => "True"
  | falseK => "False"

/-- The keyword that is spelled `text`, if there is one. -/
def ofSpelling? (text : String) : Option Keyword :=
  all.find? fun k => k.spelling == text

end Keyword

/-- Operators, brackets and separators. -/
inductive Punct where
  | arrow | fatArrow | le | ge | eqEq | notEq | andAnd | orOr
  | plus | minus | star | slash | percent | amp | caret | bang | assign | lt | gt
  | lparen | rparen | lbrace | rbrace | lbracket | rbracket
  | semi | comma | colon
deriving DecidableEq, Repr

namespace Punct

def all : List Punct :=
  [arrow, fatArrow, le, ge, eqEq, notEq, andAnd, orOr, plus, minus, star, slash, percent, amp, caret, bang, assign, lt, gt,
   lparen, rparen, lbrace, rbrace, lbracket, rbracket, semi, comma, colon]

def spelling : Punct → String
  | arrow => "->"
  | fatArrow => "=>"
  | le => "<="
  | ge => ">="
  | eqEq => "=="
  | notEq => "!="
  | andAnd => "&&"
  | orOr => "||"
  | plus => "+"
  | minus => "-"
  | star => "*"
  | slash => "/"
  | percent => "%"
  | amp => "&"
  | caret => "^"
  | bang => "!"
  | assign => "="
  | lt => "<"
  | gt => ">"
  | lparen => "("
  | rparen => ")"
  | lbrace => "\x7b"
  | rbrace => "\x7d"
  | lbracket => "["
  | rbracket => "]"
  | semi => ";"
  | comma => ","
  | colon => ":"

def name : Punct → String
  | arrow => "Arrow"
  | fatArrow => "FatArrow"
  | le => "LtEq"
  | ge => "GtEq"
  | eqEq => "EqEq"
  | notEq => "NotEq"
  | andAnd => "AmpAmp"
  | orOr => "PipePipe"
  | plus => "Plus"
  | minus => "Minus"
  | star => "Star"
  | slash => "Slash"
  | percent => "Percent"
  | amp => "Amp"
  | caret => "Caret"
  | bang => "Bang"
  | assign => "Eq"
  | lt => "Lt"
  | gt => "Gt"
  | lparen => "LParen"
  | rparen => "RParen"
  | lbrace => "LBrace"
  | rbrace => "RBrace"
  | lbracket => "LBracket"
  | rbracket => "RBracket"
  | semi => "Semi"
  | comma => "Comma"
  | colon => "Colon"

/-- The two-character token that starts with these two characters, if there is one. -/
def double? : Char → Char → Option Punct
  | '-', '>' => some arrow
  | '=', '>' => some fatArrow
  | '<', '=' => some le
  | '>', '=' => some ge
  | '=', '=' => some eqEq
  | '!', '=' => some notEq
  | '&', '&' => some andAnd
  | '|', '|' => some orOr
  | _, _ => none

/-- The one-character token with this character, if there is one. -/
def single? : Char → Option Punct
  | '+' => some plus
  | '-' => some minus
  | '*' => some star
  | '/' => some slash
  | '%' => some percent
  | '&' => some amp
  | '^' => some caret
  | '!' => some bang
  | '=' => some assign
  | '<' => some lt
  | '>' => some gt
  | '(' => some lparen
  | ')' => some rparen
  | '{' => some lbrace
  | '}' => some rbrace
  | '[' => some lbracket
  | ']' => some rbracket
  | ';' => some semi
  | ',' => some comma
  | ':' => some colon
  | _ => none

end Punct

/-- The classes of tokens that carry their own text. -/
inductive TextClass where
  | hex | binary | decimal | char | string | identifier
deriving DecidableEq, Repr

namespace TextClass

def all : List TextClass :=
  [hex, binary, decimal, char, string, identifier]

def name : TextClass → String
  | hex => "HexLiteral"
  | binary => "BinaryLiteral"
  | decimal => "IntLiteral"
  | char => "CharLiteral"
  | string => "StringLiteral"
  | identifier => "Identifier"

end TextClass

/-- The kind of a token. -/
inductive Kind where
  | keyword (k : Keyword)
  | punct (p : Punct)
  | text (c : TextClass) (text : String)
  | eof
deriving DecidableEq, Repr

namespace Kind

/-- The text of a token: what the source holds there, and `EOF` at the end of the input. -/
def display : Kind → String
  | keyword k => k.spelling
  | punct p => p.spelling
  | text _ t => t
  | eof => "EOF"

def name : Kind → String
  | keyword k => k.name
  | punct p => p.name
  | text c _ => c.name
  | eof => "Eof"

/-- Two kinds are of the same class when they differ at most in the text that they carry. -/
def sameClass : Kind → Kind → Bool
  | keyword a, keyword b => a == b
  | punct a, punct b => a == b
  | text a _, text b _ => a == b
  | eof, eof => true
  | _, _ => false

/-- The kind with this name in a token listing, carrying `payload` if its class carries a text. -/
def ofName? (kindName payload : String) : Option Kind :=
  if kindName == eof.name then some eof
  else match Keyword.all.find? fun k => k.name == kindName with
    | some k => some (keyword k)
    | none => match Punct.all.find? fun p => p.name == kindName with
      | some p => some (punct p)
      | none => (TextClass.all.find? fun c => c.name == kindName).map fun c => text c payload

@[simp] theorem sameClass_self (k : Kind) : k.sameClass k = true := by
  cases k <;> simp [sameClass]

end Kind

end Opal
