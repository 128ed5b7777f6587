import Opal.Check.Operand

/-!
# The rule of lambdas

A lambda takes the types that it does not write down from the function type that is expected of it.
Its parameters live in a scope of their own.
-/

namespace Opal

/-- The type of a parameter where `wanted` is expected. -/
def lambdaParamType (param : LambdaParam) (wanted : Ty) : Check Ty := do
  match param.type with
  | none => return wanted
  | some written =>
    let t ← denoteHere written .value
    if t ≠ wanted then Check.mismatch wanted.display t.display written.span
    else return t

/-- The type of a parameter of which nothing is expected: it has to be written down. -/
def ownParamType (param : LambdaParam) : Check Ty := do
  match param.type with
  | none => Check.fail (.ambiguousLambdaSignature param.name) param.span
  | some written => denoteHere written .value

/-- The types of the parameters of a lambda of which a function from `target` is expected. -/
def lambdaParamTypes (params : List LambdaParam) (target : Option (List Ty)) (span : Span) : Check (List Ty) := do
  match target with
  | none => params.mapM ownParamType
  | some wanted =>
    if wanted.length ≠ params.length then
      Check.fail (.arityMismatch wanted.length params.length) span
    else
      (params.zip wanted).mapM fun (p, t) => lambdaParamType p t

/-- The result type of a lambda, if it is known before its body is examined. -/
def lambdaReturn (ret : Option TypeExpr) (target : Option Ty) : Check (Option Ty) := do
  match ret with
  | none => return target
  | some written =>
    let t ← denoteHere written .result
    match target with
    | none => return some t
    | some wanted =>
      if t ≠ wanted then Check.mismatch wanted.display t.display written.span
      else return some t

/-- Binds the parameters of a lambda in the current scope. -/
def declareLambdaParams : List LambdaParam → List Ty → Check Unit
  | p :: ps, t :: ts => do
    let _ ← declareIn (← currentScope) p.name p.span (.initializedVar t false)
    declareLambdaParams ps ts
  | _, _ => pure ()

/-- The function type that is expected of a lambda, if one is. -/
def expectedFunction : Option Ty → Option (List Ty × Ty)
  | some (.function params ret) => some (params, ret)
  | _ => none

/-- The type of a lambda whose body gives its result type from the one known before. -/
def lambdaValue (params : List LambdaParam) (ret : Option TypeExpr) (body : Option Ty → Check Ty)
    (span : Span) (expected : Option Ty) : Check Ty := do
  let target := expectedFunction expected
  let types ← lambdaParamTypes params (target.map (·.1)) span
  let known ← lambdaReturn ret (target.map (·.2))
  let result ← inNewScope do
    declareLambdaParams params types
    body known
  built (.function types result)

def exprBody (body : Operand) (known : Option Ty) : Check Ty := do
  match known with
  | none => body.value none
  | some .void =>
    let _ ← body.value none
    return .void
  | some ret =>
    let _ ← body.against ret
    return ret

/-- The result type of a lambda whose body is a block; it returns nothing unless its result type is
known before. -/
def blockBody (body : Run Unit) (known : Option Ty) : Check Ty := do
  let ret := known.getD .void
  returning ret body
  return ret

end Opal
