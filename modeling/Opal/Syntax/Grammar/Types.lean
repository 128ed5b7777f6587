import Opal.Syntax.Grammar.Rules

/-!
# The grammar of types

A type is a name, an array type `[T, n]`, a reference type `^T` or `^mut T`, or a function type
`def(T, ...) -> T`, whose result may be left out.
-/

namespace Opal.Rules

open Parse

/-- The rest of an array type, after its bracket. -/
def arrayType (rules : Rules) : Parse TypeForm := do
  let element ← rules.type
  let _ ← expect (.punct .comma)
  let size ← rules.expr 0
  let _ ← expect (.punct .rbracket)
  return .array element size

def referenceType (rules : Rules) : Parse TypeForm := do
  let mutable ← eat (.keyword .mutK)
  let target ← rules.type
  return .reference mutable target

/-- The rest of a function type, after its keyword. -/
def functionType (rules : Rules) : Parse TypeForm := do
  let _ ← expect (.punct .lparen)
  let params ← sepUntil (.punct .rparen) rules.type
  let _ ← expect (.punct .rparen)
  let ret ← optionally (.punct .arrow) rules.type
  return .function params ret

/-- The form of a type that is a name. The words `true` and `false` are let through here, for the
type to be rejected by name. -/
def namedType : Parse TypeForm := do
  let t ← advance
  match t.kind with
  | .text .identifier name => return .named name
  | .keyword .trueK => return .named "true"
  | .keyword .falseK => return .named "false"
  | k => fail (.expected .type k) t.span

/-- The first token decides on the form of the type, and only a name has none of its own. -/
def typeForm (rules : Rules) : Parse TypeForm := do
  if ← eat (.punct .lbracket) then rules.arrayType
  else if ← eat (.punct .caret) then rules.referenceType
  else if ← eat (.keyword .defK) then rules.functionType
  else namedType

def typeRule (rules : Rules) : Parse TypeExpr := do
  let start := (← peek).span
  let form ← rules.typeForm
  return ⟨← spanSince start,form⟩

end Opal.Rules
