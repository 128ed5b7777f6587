import Opal.Check.Operand

/-!
# The rules of statements
-/

namespace Opal

/-- Examines an assignment: the target has to be a mutable storage location, and the value has to fit
it. -/
def assignStmt (target value : Operand) : Check Unit := do
  let place ← target.place .assign
  if place.mutable then
    let _ ← value.against place.type
  else
    match place.origin with
    | .binding name => Check.fail (.immutableAssignment name) target.expr.span
    | .deref reference => Check.fail (.immutableTargetAssignment reference.display) target.expr.span

def exprStmt (value : Operand) : Check Unit := do
  let _ ← value.value none

/-- Examines a returned value: it has to fit the result type, and where there is none, nothing may be returned. -/
def returnStmt (value : Operand) : Check Unit := do
  let ret ← resultType
  if ret = .void then
    let found ← value.value none
    Check.mismatch "void" found.display value.expr.span
  else
    let _ ← value.against ret

/-- Examines a return without a value. -/
def bareReturnStmt (span : Span) : Check Unit := do
  let ret ← resultType
  if ret = .void then pure () else Check.mismatch ret.display "void" span

def blockStmt (body : Run Unit) : Check Unit :=
  inNewScope body

def ifStmt (condition : Operand) (thenBlock : Run Unit) : Check Unit := do
  let _ ← condition.against .bool
  blockStmt thenBlock

/-- Examines both branches of a conditional whose condition is a truth value. -/
def ifElseStmt (condition : Operand) (thenBlock : Run Unit) (elseBranch : Check Unit) : Check Unit := do
  ifStmt condition thenBlock
  reported elseBranch

def whileStmt (condition : Operand) (body : Run Unit) : Check Unit :=
  ifStmt condition body

end Opal
