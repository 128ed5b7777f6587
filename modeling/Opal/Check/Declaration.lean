import Opal.Check.Operand

/-!
# The rules of declarations

The declarations of a scope are bound before any of them is examined, so that they may refer to each
other in any order.
-/

namespace Opal

/-- What a declaration binds its name to before it is examined. -/
def Decl.referent : Decl → Referent
  | .var d => .declaredVar d.mutable
  | .const _ => .declaredConst
  | .func _ => .declaredFunc

def declareOne (scope : ScopeId) (decl : Decl) : Run Unit := reported do
  let id ← declareIn scope decl.name decl.nameSpan decl.referent
  perform (.introduced decl id)

/-- The parameters of a function with their types. -/
def formals : List Param → Check (List Formal)
  | [] => return []
  | p :: ps => do
    let t ← denoteHere p.type .value
    let rest ← formals ps
    return ⟨p.name,p.anonymous,t⟩ :: rest

def writtenResult : Option TypeExpr → Check Ty
  | none => return .void
  | some written => denoteHere written .result

def learnSignature (id : BindingId) (d : FunDecl) : Check Unit := do
  let params ← formals d.params
  let ret ← writtenResult d.ret
  let type ← built (.function (params.map (·.type)) ret)
  modifyReferent id fun _ => .func type params

def bindingOf (id : NodeId) : Run (Option BindingId) := do
  return (← get).introduces[id]?

/-- Examines a declaration that was accepted; one that was refused is left out. -/
def ifAccepted (id : NodeId) (m : BindingId → Check Unit) : Check Unit := do
  match ← bindingOf id with
  | some binding => m binding
  | none => pure ()

/-- Finds the signature of a declared function. Other declarations have none. -/
def signature : Decl → Check Unit
  | .func d => ifAccepted d.id fun id => learnSignature id d
  | _ => pure ()

/-- Binds the declarations of the current scope, all of them before any signature is found, since
signatures may name constants. -/
def declareAll (decls : List Decl) : Run Unit := do
  let scope ← currentScope
  decls.forM (declareOne scope)
  decls.forM fun decl => reported (signature decl)

/-- The type of a variable. -/
def varType (name : String) (written : Option TypeExpr) (init : Operand) : Check Ty := do
  match written with
  | some written =>
    let t ← denoteHere written .value
    let _ ← init.against t
    return t
  | none =>
    let t ← init.value none
    if t = .void then
      Check.fail (.invalidType "void" ("'" ++ name ++ "' cannot hold the result of a void call")) init.expr.span
    else
      return t

def varDecl (name : String) (written : Option TypeExpr) (init : Operand) (id : BindingId) : Check Unit := do
  modifyReferent id (·.setVarStage .initializing)
  tryCatch (do
      let t ← varType name written init
      modifyReferent id fun r => (r.setVarType t).setVarStage .initialized)
    fun stop => do
      modifyReferent id fun r => (r.setVarType .error).setVarStage .failed
      throw stop

/-- Binds the parameters of a function in `scope`, and reports those that are refused. -/
def declareParams (scope : ScopeId) : List Param → List Formal → Run Unit
  | p :: ps, f :: fs => do
    reported do
      let _ ← declareIn scope p.name p.span (.initializedVar f.type p.mutable)
    declareParams scope ps fs
  | _, _ => pure ()

/-- Examines the body of a function whose signature is known; there is nothing to examine it by
otherwise. -/
def funDecl (params : List Param) (body : Run Unit) (id : BindingId) : Check Unit := do
  match ← referentOf id with
  | .func (.function _ ret) fs =>
    inNewScope do
      declareParams (← currentScope) params fs
      returning ret body
  | _ => pure ()

/-- Examines the declaration of a constant: it is evaluated unless it was before. -/
def constDecl (id : BindingId) : Check Unit := do
  let _ ← constantValue id

end Opal
