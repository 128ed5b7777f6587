import Opal.Text.Quoted
import Opal.Ty.Basic

/-!
# Constant values

The values that constant expressions have.
-/

namespace Opal

/-- The value of a constant expression. -/
inductive Value where
  | int (n : Int) (type : IntTy)
  | bool (b : Bool)
  | char (c : Char)
deriving DecidableEq, Repr

namespace Value

def type : Value → Ty
  | int _ i => .int i
  | bool _ => .bool
  | char _ => .char

def int? : Value → Option Int
  | int n _ => some n
  | _ => none

/-- A value as it is written: an integer with the name of its type, a character in quotes. -/
def display : Value → String
  | int n i => toString n ++ i.name
  | bool b => if b then "true" else "false"
  | char c => Quoted.char c

end Value

end Opal
