import Opal.Syntax.Cursor

/-!
# Grammar rules

The rule of a category is written for given rules of the categories inside it, and calls them only after it has taken a token itself.
-/

namespace Opal

/-- A rule for each category that occurs inside others. -/
structure Rules where
  type : Parse TypeExpr
  /-- Expressions whose binary operators, outside parentheses, bind at least as tightly as the
  given number. -/
  expr : Nat → Parse Expr
  /-- Expressions whose outermost operator is no binary one. -/
  unary : Parse Expr
  block : Parse Block
  /-- The conditional statement. -/
  cond : Parse Stmt
  stmt : Parse Stmt

namespace Rules

/-- Fails because the next token does not start `what`. -/
def refuse {α : Type} (what : Expected) : Parse α := do
  let t ← Parse.advance
  Parse.fail (.expected what t.kind) t.span

/-- Fails because the next token is not of the class of `kind`. -/
def miss {α : Type} (kind : Kind) : Parse α := do
  let t ← Parse.expect kind
  Parse.fail (.expected (.kind kind) t.kind) t.span

/-- The rules where no token is left: every category asks for its first token in vain. -/
def atEnd : Rules where
  type := refuse .type
  expr _ := refuse .expression
  unary := refuse .expression
  block := miss (.punct .lbrace)
  cond := miss (.keyword .ifK)
  stmt := refuse .expression

end Rules

end Opal
