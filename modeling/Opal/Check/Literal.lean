import Opal.Check.State
import Opal.Constant.Literal

/-!
# Literals and their types

An integer literal has no type of its own: it takes the type that its context requires. The same
holds of negated literals and of arithmetic over nothing but literals.
-/

namespace Opal

mutual

/-- Whether an expression takes its type from the context. -/
def Expr.isContextual : Expr → Bool
  | ⟨_,_,form⟩ => form.isContextual

def ExprForm.isContextual : ExprForm → Bool
  | .int _ => true
  | .paren e => e.isContextual
  | .unary .neg e => e.isContextual
  | .binary op l r => op.isArithmetic && l.isContextual && r.isContextual
  | _ => false

end

/-- The text of an expression that is an integer literal, in parentheses or not. -/
def Expr.literal? (e : Expr) : Option String :=
  match e.withoutParens.form with
  | .int text => some text
  | _ => none

/-- The value of an integer literal, with a minus sign in front or not, of the required type. -/
def literalOfType (text : String) (negative : Bool) (expected : Option Ty) (span : Span) : Check Value := do
  let written := if negative then "-" ++ text else text
  match expected with
  | none => Check.fail (.ambiguousLiteralType written) span
  | some .error => Check.blocked
  | some (.int i) =>
    match literalValue? text with
    | none => Check.fail (.literalOutOfRange written i.name) span
    | some magnitude =>
      let n := if negative then -magnitude else magnitude
      if i.contains n then return .int n i
      else Check.fail (.literalOutOfRange written i.name) span
  | some type => Check.mismatch type.display "integer literal" span

end Opal
