import Opal.Check.WrittenType

/-!
# Evaluation of constants

A constant is evaluated when its value is first needed, as seen from the scope it is declared in. While it is evaluated it counts as
being in progress, so a constant that needs its own value is noticed.
-/

namespace Opal

/-- The type that the declaration of a constant requires, as seen from `scope`. -/
def requiredType (constants : Constants) (scope : ScopeId) : Option TypeExpr → Check (Option Ty)
  | none => return none
  | some written => do
    let t ← written.denote constants scope .value
    if t.isScalar then return some t
    else
      Check.fail (.notAConstantExpression ("a value of type " ++ t.display)) written.span

def evaluateDecl (constants : Constants) (scope : ScopeId) (decl : ConstDecl) : Check Value := do
  let expected ← requiredType constants scope decl.type
  decl.value.constant constants scope expected

def settle (id : BindingId) (decl : ConstDecl) (v : Value) : Run Unit := do
  modifyReferent id fun r => (r.setConstType v.type).setConstStage (.done v)
  perform (.valued decl.id v)

def abandon (id : BindingId) : Run Unit :=
  modifyReferent id fun r => (r.setConstType .error).setConstStage .failed

/-- Evaluates a constant that is declared in `scope`. What goes wrong is reported here, once. -/
def evaluateFresh (constants : Constants) (id : BindingId) (scope : ScopeId) (decl : ConstDecl) : Check Value := do
  modifyReferent id (·.setConstStage .inProgress)
  tryCatch (do
      let v ← evaluateDecl constants scope decl
      settle id decl v
      return v)
    fun stop => do
      perform stop.event
      abandon id
      Check.blocked

/-- The value of a constant. It is evaluated unless it was before, with `constants` for the constants
it names; a constant that failed or that is in progress has no value. -/
def evaluateWith (constants : Constants) (id : BindingId) : Check Value := do
  let s ← get
  match s.scopes.bindings[id]? with
  | some ⟨_,scope,_,.const _ stage⟩ =>
    match stage with
    | .done v => return v
    | .pending =>
      match s.constants[id]? with
      | some decl => evaluateFresh constants id scope decl
      | none => Check.blocked
    | _ => Check.blocked
  | _ => Check.blocked

/-- The value of a constant, with at most `n` evaluations inside one another. -/
def constantWithin : Nat → Constants
  | 0 => fun _ => Check.blocked
  | n + 1 => evaluateWith fun id => constantWithin n id

/-- The value of a constant. -/
def constantValue : Constants := fun id => do
  constantWithin ((← get).scopes.bindings.size + 1) id

/-- The type that a type written in the current scope stands for. -/
def denoteHere (type : TypeExpr) (position : Position) : Check Ty := do
  type.denote constantValue (← currentScope) position

end Opal
