import Opal.Check.Literal
import Opal.Constant.Fold

/-!
# Constant expressions

The value of a constant expression. The constants it names are given by a function, so that an
expression is evaluated by recursion on its form alone.
-/

namespace Opal

/-- The value of a named constant. -/
abbrev Constants := BindingId → Check Value

/-- The word for an expression that is no constant expression, whatever it holds. -/
def ExprForm.word : ExprForm → String
  | .string _ => "a string literal"
  | .addressOf _ => "an address-of expression"
  | .deref _ => "a dereference"
  | .index .. => "an index expression"
  | .call .. => "a function call"
  | .array _ => "an array literal"
  | .lambda .. => "a lambda"
  | _ => "this expression"

/-- The value of a name: it has to be a constant whose value is not being computed. -/
def constantName (constants : Constants) (scope : ScopeId) (id : NodeId) (name : String) (span : Span) : Check Value := do
  let binding ← findFrom scope id name span
  match ← referentOf binding with
  | .const _ .inProgress => Check.fail (.circularConstantDefinition name) span
  | .const .. => constants binding
  | referent => Check.fail (.notAConstantExpression (referent.word ++ " '" ++ name ++ "'")) span

/-- The negation of the value of an operand. -/
def negateValue (v : Value) (operandSpan span : Span) : Check Value :=
  match v with
  | .int n i =>
    if i.signed then
      if i.contains (-n) then return .int (-n) i
      else Check.fail (.arithmeticOverflow i.name) span
    else Check.mismatch "signed integer" v.type.display operandSpan
  | _ => Check.mismatch "signed integer" v.type.display operandSpan

/-- The value of a negation; a negated literal is one literal. -/
def constantNegation (operand : Expr) (value : Option Ty → Check Value) (span : Span) (expected : Option Ty) : Check Value := do
  match operand.literal? with
  | some text =>
    let v ← literalOfType text true expected span
    recordType operand.id v.type
    return v
  | none => negateValue (← value expected) operand.span span

def constantComplement (value : Option Ty → Check Value) : Check Value := do
  match ← value (some .bool) with
  | .bool b => return .bool (!b)
  | _ => Check.blocked

/-- The type that the operand of a binary operator is required to have, where it is examined first.
-/
def BinaryOp.firstExpected (op : BinaryOp) (expected : Option Ty) : Option Ty :=
  if op.isArithmetic then expected
  else if op.isLogical then some .bool
  else none

/-- Whether a binary operator is defined on values of a type. -/
def BinaryOp.accepts (op : BinaryOp) : Ty → Bool
  | .int _ => !op.isLogical
  | .bool => !op.isArithmetic && !op.isOrdering
  | .char => op.isComparison
  | _ => false

/-- The values of the operands of a binary operator. An operand without a type of its own is evaluated
second, with the type of the other. -/
def constantOperands (op : BinaryOp) (left right : Expr) (leftValue rightValue : Option Ty → Check Value) (expected : Option Ty) :
    Check (Value × Value) := do
  let first := op.firstExpected expected
  if left.isContextual && !right.isContextual then
    let r ← rightValue first
    let l ← leftValue (some r.type)
    return (l, r)
  else
    let l ← leftValue first
    let r ← rightValue (some l.type)
    return (l, r)

def constantBinary (op : BinaryOp) (left right : Expr)
    (leftValue rightValue : Option Ty → Check Value) (span : Span) (expected : Option Ty) :
    Check Value := do
  let (l, r) ← constantOperands op left right leftValue rightValue expected
  if op.accepts l.type then
    Check.ofExcept ((l.binary op r).mapError fun cause => ⟨cause,span⟩)
  else
    Check.mismatch (if op.isLogical then "bool" else "integer") l.type.display left.span

/-- Requires a value to have the expected type. The type of something that failed is not compared. -/
def requireType (v : Value) (expected : Option Ty) (span : Span) : Check Unit :=
  match expected with
  | none => pure ()
  | some t =>
    if t ≠ .error ∧ v.type ≠ t then Check.mismatch t.display v.type.display span else pure ()

mutual

/-- The value of an expression, as seen from `scope`, of the expected type. -/
def Expr.constant (constants : Constants) (scope : ScopeId) : Expr → Option Ty → Check Value
  | ⟨id,span,form⟩, expected => do
    perform (.begun id expected)
    let v ← form.constant constants scope id span expected
    requireType v expected span
    recordType id v.type
    return v

def ExprForm.constant (constants : Constants) (scope : ScopeId) : ExprForm → NodeId → Span → Option Ty → Check Value
  | .int text, _, span, expected => literalOfType text false expected span
  | .bool b, _, _, _ => return .bool b
  | .char c, _, _, _ => return .char c
  | .paren e, _, _, expected => e.constant constants scope expected
  | .name name, id, span, _ => constantName constants scope id name span
  | .unary .neg e, _, span, expected =>
    constantNegation e (fun x => e.constant constants scope x) span expected
  | .unary .not e, _, _, _ => constantComplement fun x => e.constant constants scope x
  | .binary op l r, _, span, expected =>
    constantBinary op l r (fun x => l.constant constants scope x) (fun x => r.constant constants scope x) span expected
  | form, _, span, _ => Check.fail (.notAConstantExpression form.word) span

end

/-- The error of an array size that stopped with `e`. A name that is not declared and a circular
definition are reported as such, everything else as an unfit size. -/
def arraySizeError (size : Expr) (e : SemanticError) : SemanticError :=
  match e.cause with
  | .circularConstantDefinition _ | .undeclaredIdentifier _ => e
  | cause => ⟨.invalidGenericArgument ("array size: " ++ cause.message),size.span⟩

def arraySize (constants : Constants) (scope : ScopeId) (size : Expr) : Check Nat := do
  let invalid {α : Type} (reason : String) : Check α :=
    Check.fail (.invalidGenericArgument reason) size.span
  let expected := if size.isContextual then some (.int .u32) else none
  let v ← tryCatch (size.constant constants scope expected) fun
    | .error e => throw (.error (arraySizeError size e))
    | .blocked => Check.blocked
  match v with
  | .int n _ =>
    if n < 0 then invalid ("array size " ++ toString n ++ " is negative")
    else if Int.pow 2 32 ≤ n then invalid ("array size " ++ toString n ++ " is too large")
    else return n.toNat
  | v => invalid ("array size must be an integer, found " ++ v.type.display)

end Opal
