import Opal.Check.Error
import Opal.Ty.Basic

/-!
# Names with a fixed meaning

The names of the basic types, and the names that no declaration may introduce.
-/

namespace Opal

/-- The names that no declaration may introduce: the two truth values, the names of the basic types,
and `str`. -/
def reservedNames : List String :=
  ["true", "false", "bool", "char", "u8", "i8", "u16", "i16", "u32", "i32", "str", "string", "void"]

def isReservedName (name : String) : Bool :=
  reservedNames.contains name

/-- The basic types with their names. -/
def Ty.byName : List (String × Ty) :=
  [("bool", .bool), ("char", .char), ("string", .string), ("void", .void),
   ("u8", .int .u8), ("i8", .int .i8), ("u16", .int .u16), ("i16", .int .i16),
   ("u32", .int .u32), ("i32", .int .i32)]

def Ty.ofName (name : String) : Except SemanticCause Ty :=
  match Ty.byName.lookup name with
  | some t => .ok t
  | none =>
    if name = "str" then
      .error (.invalidType name "unsized character sequences cannot be stored; use string")
    else if name = "true" ∨ name = "false" then .error (.reservedIdentifier name)
    else .error (.undeclaredIdentifier name)

end Opal
