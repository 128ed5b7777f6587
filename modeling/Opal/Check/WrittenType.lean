import Opal.Check.Constant

/-!
# Written types

The type that a written type stands for. Sizes of arrays are constant expressions.
-/

namespace Opal

/-- Where a type is written. Only a function can have a result of no type. -/
inductive Position where
  | value
  | result
deriving DecidableEq, Repr

/-- The type that a name stands for in a position. -/
def denoteName (name : String) (position : Position) (span : Span) : Check Ty := do
  let t ← Check.ofExcept ((Ty.ofName name).mapError fun cause => ⟨cause,span⟩)
  if t = .void ∧ position = .value then
    Check.fail (.invalidType name "void is only allowed as a return type") span
  else
    return t

mutual

/-- The type that a written type stands for, as seen from `scope`. -/
def TypeExpr.denote (constants : Constants) (scope : ScopeId) : TypeExpr → Position → Check Ty
  | ⟨span,form⟩, position => form.denote constants scope span position

def TypeForm.denote (constants : Constants) (scope : ScopeId) : TypeForm → Span → Position → Check Ty
  | .named name, span, position => denoteName name position span
  | .array element size, _, _ => do
    let element ← element.denote constants scope .value
    let size ← arraySize constants scope size
    built (.array element size)
  | .reference mutable target, _, _ => do
    let target ← target.denote constants scope .value
    built (.reference mutable target)
  | .function params none, _, _ => do
    let params ← denoteAll constants scope params
    built (.function params .void)
  | .function params (some ret), _, _ => do
    let params ← denoteAll constants scope params
    let ret ← ret.denote constants scope .result
    built (.function params ret)

def denoteAll (constants : Constants) (scope : ScopeId) : List TypeExpr → Check (List Ty)
  | [] => return []
  | t :: ts => do
    let type ← t.denote constants scope .value
    let types ← denoteAll constants scope ts
    return type :: types

end

end Opal
