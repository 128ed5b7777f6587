/-!
# Operators

The unary and binary operators of expressions, their groups, and how tightly the binary ones bind.
-/

namespace Opal

inductive UnaryOp where
  | neg
  | not
deriving DecidableEq, Repr

def UnaryOp.display : UnaryOp → String
  | neg => "-"
  | not => "!"

inductive BinaryOp where
  | add | sub | mul | div | rem
  | and | or
  | eq | ne | lt | le | gt | ge
deriving DecidableEq, Repr

namespace BinaryOp

def display : BinaryOp → String
  | add => "+"
  | sub => "-"
  | mul => "*"
  | div => "/"
  | rem => "%"
  | and => "&&"
  | or => "||"
  | eq => "=="
  | ne => "!="
  | lt => "<"
  | le => "<="
  | gt => ">"
  | ge => ">="

/-- Operators that combine two integers into one of the same type. -/
def isArithmetic : BinaryOp → Bool
  | add | sub | mul | div | rem => true
  | _ => false

/-- Operators on two truth values. -/
def isLogical : BinaryOp → Bool
  | and | or => true
  | _ => false

/-- Operators that order two integers. -/
def isOrdering : BinaryOp → Bool
  | lt | le | gt | ge => true
  | _ => false

/-- Operators that compare two values of one type. -/
def isComparison : BinaryOp → Bool
  | eq | ne | lt | le | gt | ge => true
  | _ => false

/-- How tightly an operator binds. -/
def precedence : BinaryOp → Nat
  | or => 1
  | and => 2
  | eq | ne | lt | le | gt | ge => 3
  | add | sub => 4
  | mul | div | rem => 5

end BinaryOp

end Opal
