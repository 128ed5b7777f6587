import Opal.Syntax.Escape
import Opal.Syntax.Grammar.Rules

/-!
# The grammar of expressions

Binary operators associate to the left and bind as tightly as their precedence says. Unary operators
stand before their operand; calls, indexing and dereferencing stand after theirs and bind tighter.
-/

namespace Opal

/-- The binary operator that a token stands for between two operands. -/
def BinaryOp.ofKind? : Kind → Option BinaryOp
  | .punct .plus => some .add
  | .punct .minus => some .sub
  | .punct .star => some .mul
  | .punct .slash => some .div
  | .punct .percent => some .rem
  | .punct .andAnd => some .and
  | .punct .orOr => some .or
  | .punct .eqEq => some .eq
  | .punct .notEq => some .ne
  | .punct .lt => some .lt
  | .punct .le => some .le
  | .punct .gt => some .gt
  | .punct .ge => some .ge
  | _ => none

namespace Rules

open Parse

/-- An identifier of any name, for comparing classes. -/
def anyIdentifier : Kind :=
  .text .identifier ""

/-- Whether the opening parenthesis ahead starts a lambda. An empty pair of parentheses does, since no
expression is empty; so does a name followed by a colon or a comma; a single name in parentheses
does if an arrow comes after them. -/
def lambdaAhead : Parse Bool := do
  if ← checkAt 1 (.punct .rparen) then return true
  if !(← checkAt 1 anyIdentifier) then return false
  if ← checkAt 2 (.punct .colon) then return true
  if ← checkAt 2 (.punct .comma) then return true
  if !(← checkAt 2 (.punct .rparen)) then return false
  if ← checkAt 3 (.punct .fatArrow) then return true
  checkAt 3 (.punct .arrow)

def lambdaParam (rules : Rules) : Parse LambdaParam := do
  let start := (← peek).span
  let name ← identifier
  let type ← optionally (.punct .colon) rules.type
  return ⟨name,type,← spanSince start⟩

def lambdaBody (rules : Rules) : Parse LambdaBody := do
  if ← check (.punct .lbrace) then
    return .block (← rules.block)
  else
    return .expr (← rules.expr 0)

def lambdaRule (rules : Rules) : Parse Expr := do
  let start := (← expect (.punct .lparen)).span
  let params ← sepUntil (.punct .rparen) rules.lambdaParam
  let _ ← expect (.punct .rparen)
  let ret ← optionally (.punct .arrow) rules.type
  let _ ← expect (.punct .fatArrow)
  let body ← rules.lambdaBody
  node (.lambda params ret body) (← spanSince start)

def parenRule (rules : Rules) : Parse Expr := do
  let start := (← advance).span
  let inner ← rules.expr 0
  let _ ← expect (.punct .rparen)
  node (.paren inner) (← spanSince start)

/-- An array literal that starts at `start`, after its opening bracket. -/
def arrayRule (rules : Rules) (start : Span) : Parse Expr := do
  let elements ← sepUntil (.punct .rbracket) (rules.expr 0)
  let _ ← expect (.punct .rbracket)
  node (.array elements) (← spanSince start)

/-- What a single token stands for as an expression. -/
def atomForm (t : Token) : Except SyntaxError ExprForm :=
  let located {α : Type} (r : Except SyntaxCause α) : Except SyntaxError α :=
    r.mapError fun cause => ⟨cause,t.span⟩
  match t.kind with
  | .text .decimal text | .text .hex text | .text .binary text => .ok (.int text)
  | .keyword .trueK => .ok (.bool true)
  | .keyword .falseK => .ok (.bool false)
  | .text .char text => (located (Escape.character text)).map .char
  | .text .string text => (located (Escape.string text)).map .string
  | .text .identifier name => .ok (.name name)
  | k => .error ⟨.expected .expression k,t.span⟩

def atomRule : Parse Expr := do
  let t ← advance
  match atomForm t with
  | .ok form => node form t.span
  | .error e => fail e.cause e.span

/-- A literal, a name, or an expression in brackets of its own. -/
def primaryRule (rules : Rules) : Parse Expr := do
  let start := (← peek).span
  if ← check (.punct .lparen) then
    if ← lambdaAhead then rules.lambdaRule else rules.parenRule
  else if ← eat (.punct .lbracket) then rules.arrayRule start
  else atomRule

/-- Whether a name and a colon come next. -/
def nameAndColonAhead : Parse Bool := do
  if ← check anyIdentifier then checkAt 1 (.punct .colon) else return false

/-- The name of the parameter that an argument is for, if it says so. -/
def argumentName : Parse (Option String) := do
  if ← nameAndColonAhead then
    let name ← identifier
    let _ ← expect (.punct .colon)
    return some name
  else
    return none

/-- An argument of a call. A name and a colon say which parameter it is for. -/
def argumentRule (rules : Rules) : Parse Argument := do
  let start := (← peek).span
  let name ← argumentName
  let value ← rules.expr 0
  return ⟨name,value,← spanSince start⟩

/-- Extends `e` by a call, an index or a dereference, if one comes next. -/
def postfixStep (rules : Rules) (e : Expr) : Parse (Option Expr) := do
  if ← eat (.punct .lparen) then
    let args ← sepUntil (.punct .rparen) rules.argumentRule
    let _ ← expect (.punct .rparen)
    return some (← node (.call e args) (← spanSince e.span))
  else if ← eat (.punct .lbracket) then
    let index ← rules.expr 0
    let _ ← expect (.punct .rbracket)
    return some (← node (.index e index) (← spanSince e.span))
  else if ← eat (.punct .caret) then
    return some (← node (.deref e) (← spanSince e.span))
  else
    return none

/-- A primary expression with the calls, indices and dereferences after it. -/
def postfixRule (rules : Rules) : Parse Expr := do
  extend rules.postfixStep (← rules.primaryRule)

/-- An operand with the unary operators before it. -/
def unaryRule (rules : Rules) : Parse Expr := do
  let start := (← peek).span
  if ← eat (.punct .minus) then
    let operand ← rules.unary
    node (.unary .neg operand) (start.cover operand.span)
  else if ← eat (.punct .bang) then
    let operand ← rules.unary
    node (.unary .not operand) (start.cover operand.span)
  else if ← eat (.punct .amp) then
    let operand ← rules.unary
    node (.addressOf operand) (start.cover operand.span)
  else
    rules.postfixRule

/-- Extends `left` by a binary operator that binds at least as tightly as `least`, and its right
operand, if they come next. -/
def binaryStep (rules : Rules) (least : Nat) (left : Expr) : Parse (Option Expr) := do
  match BinaryOp.ofKind? (← peek).kind with
  | none => return none
  | some op =>
    if op.precedence < least then return none
    let _ ← advance
    let right ← rules.expr (op.precedence + 1)
    return some (← node (.binary op left right) (left.span.cover right.span))

/-- An expression whose binary operators, outside brackets, bind at least as tightly as `least`. -/
def exprRule (rules : Rules) (least : Nat) : Parse Expr := do
  extend (rules.binaryStep least) (← rules.unaryRule)

end Rules

end Opal
