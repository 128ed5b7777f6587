import Opal.Syntax.Grammar.Declarations
import Opal.Syntax.Grammar.Expressions

/-!
# The grammar of statements

A statement is a declaration, `return`, `if`, `while`, a block, an assignment or an expression. In
statement position `def` starts a declaration unless a parenthesis follows it directly.
-/

namespace Opal.Rules

open Parse

def blockRule (rules : Rules) : Parse Block := do
  let start := (← expect (.punct .lbrace)).span
  let stmts ← many [.punct .rbrace, .eof] rules.stmt
  let _ ← expect (.punct .rbrace)
  return ⟨stmts,← spanSince start⟩

/-- The branch after `else`: a further conditional, or a block. -/
def elseBranch (rules : Rules) : Parse Stmt := do
  if ← check (.keyword .ifK) then rules.cond
  else
    let start := (← peek).span
    let block ← rules.block
    return ⟨← spanSince start,.block block⟩

def condRule (rules : Rules) : Parse Stmt := do
  let start := (← expect (.keyword .ifK)).span
  let condition ← rules.expr 0
  let thenBlock ← rules.block
  let elseBranch ← optionally (.keyword .elseK) rules.elseBranch
  return ⟨← spanSince start,.cond condition thenBlock elseBranch⟩

def declarationAhead : Parse Bool := do
  if ← check (.keyword .letK) then return true
  if ← check (.keyword .constK) then return true
  if !(← check (.keyword .defK)) then return false
  return !(← checkAt 1 (.punct .lparen))

def returnValue (rules : Rules) : Parse (Option Expr) := do
  if ← check (.punct .semi) then return none
  else return some (← rules.expr 0)

/-- An expression or an assignment that starts at `start`. -/
def simpleStmt (rules : Rules) (start : Span) : Parse Stmt := do
  let e ← rules.exprRule 0
  if ← eat (.punct .assign) then
    let value ← rules.expr 0
    let _ ← expect (.punct .semi)
    return ⟨← spanSince start,.assign e value⟩
  else
    let _ ← expect (.punct .semi)
    return ⟨← spanSince start,.expr e⟩

def stmtRule (rules : Rules) : Parse Stmt := do
  let start := (← peek).span
  if ← declarationAhead then
    let item ← rules.itemRule
    return ⟨item.span,.decl item.decl⟩
  else if ← eat (.keyword .returnK) then
    let value ← rules.returnValue
    let _ ← expect (.punct .semi)
    return ⟨← spanSince start,.ret value⟩
  else if ← check (.keyword .ifK) then
    rules.condRule
  else if ← eat (.keyword .whileK) then
    let condition ← rules.expr 0
    let body ← rules.block
    return ⟨← spanSince start,.loop condition body⟩
  else if ← check (.punct .lbrace) then
    let block ← rules.blockRule
    return ⟨← spanSince start,.block block⟩
  else
    rules.simpleStmt start

end Opal.Rules
