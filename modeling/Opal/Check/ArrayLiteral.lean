import Opal.Check.Operand

/-!
# The rule of array literals

Where an array is expected, the elements take the element type of that array. Otherwise the first
element that has a type of its own decides the type of all.
-/

namespace Opal

/-- Examines elements against the type of the elements, from left to right. -/
def checkElements (element : Ty) : List Operand → Check Unit
  | [] => pure ()
  | e :: es => do
    let _ ← e.against element
    checkElements element es

/-- The element that decides the type of an array literal: the first one with a type of its own, or
else the first one. -/
def decidingElement (elements : List Operand) : Option Operand :=
  (elements.find? fun e => !e.expr.isContextual).or elements.head?

def ownArrayValue (elements : List Operand) (span : Span) : Check Ty := do
  match decidingElement elements with
  | none => Check.fail (.ambiguousLiteralType "[]") span
  | some first =>
    let element ← first.value none
    if element = .void then
      Check.fail (.invalidType "void" "arrays cannot hold void values") first.expr.span
    else
      checkElements element (elements.filter fun e => e.expr.id ≠ first.expr.id)
      built (.array element elements.length)

def arrayValue (elements : List Operand) (span : Span) (expected : Option Ty) : Check Ty := do
  match expected with
  | some (.array element size) =>
    if elements.length ≠ size then
      Check.fail (.arraySizeMismatch size elements.length) span
    else
      checkElements element elements
      return .array element size
  | some .error => Check.blocked
  | _ => ownArrayValue elements span

end Opal
