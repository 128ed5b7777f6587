import Opal.Check.Operand

/-!
# The rules of calls

A function that is called by its name binds named arguments to the parameters of that name, and the
others to the anonymous parameters in order. A function that is called as a value binds arguments by
position.
-/

namespace Opal

/-- An argument of a call with the ways to examine it. -/
structure ArgumentOperand where
  name : Option String
  span : Span
  value : Operand

/-- Arguments while they are bound to parameters. -/
structure ArgumentBinding where
  /-- The argument of each parameter so far. -/
  bound : List (Option ArgumentOperand)
  /-- The places of the anonymous parameters that are still free. -/
  free : List Nat
  /-- The number of arguments that found no parameter. -/
  surplus : Nat

namespace ArgumentBinding

def initial (params : List Formal) : ArgumentBinding where
  bound := params.map fun _ => none
  free := (List.range params.length).filter fun i => params[i]?.any (·.anonymous)
  surplus := 0

def step (function : String) (params : List Formal) (b : ArgumentBinding) (a : ArgumentOperand) :
    Except SemanticError ArgumentBinding :=
  match a.name with
  | some name =>
    match params.findIdx? fun p => !p.anonymous && p.name == name with
    | none => .error ⟨.unknownParameter function name,a.span⟩
    | some i =>
      if b.bound[i]?.join.isSome then .error ⟨.duplicateArgument name,a.span⟩
      else .ok { b with bound := b.bound.set i (some a) }
  | none =>
    match b.free with
    | i :: rest => .ok { b with bound := b.bound.set i (some a), free := rest }
    | [] => .ok { b with surplus := b.surplus + 1 }

end ArgumentBinding

/-- The argument of each parameter of a function that is called by name. -/
def bindArguments (function : String) (params : List Formal) (args : List ArgumentOperand)
    (span : Span) : Except SemanticError (List ArgumentOperand) := do
  let b ← args.foldlM (ArgumentBinding.step function params) (.initial params)
  match (params.zip b.bound).find? fun (_, a) => a.isNone with
  | some (p, _) => .error ⟨.missingArgument function p.name,span⟩
  | none =>
    if b.surplus > 0 then .error ⟨.arityMismatch params.length args.length,span⟩
    else .ok (b.bound.filterMap id)

/-- Examines arguments against the types of their parameters, from left to right. -/
def checkArguments : List Ty → List ArgumentOperand → Check Unit
  | t :: ts, a :: as => do
    let _ ← a.value.against t
    checkArguments ts as
  | _, _ => pure ()

def namedCall (name : String) (type : Ty) (params : List Formal) (args : List ArgumentOperand) (span : Span) : Check Ty := do
  match type with
  | .function _ ret =>
    let bound ← Check.ofExcept (bindArguments name params args span)
    checkArguments (params.map (·.type)) bound
    return ret
  | _ => Check.blocked

/-- The type of a call of a value. Arguments are bound by position. -/
def valueCall (callee : Operand) (args : List ArgumentOperand) (span : Span) : Check Ty := do
  let t ← callee.value none
  match t with
  | .function params ret =>
    match args.find? (·.name.isSome) with
    | some a => Check.fail (.unknownParameter t.display (a.name.getD "")) a.span
    | none =>
      if args.length ≠ params.length then
        Check.fail (.arityMismatch params.length args.length) span
      else
        checkArguments params args
        return ret
  | _ => Check.mismatch "a function" t.display callee.expr.span

/-- The type of a call. A name in the place of the function, in parentheses or not, is looked up
first: if it is that of a declared function, arguments are bound by name. -/
def callValue (callee : Operand) (args : List ArgumentOperand) (span : Span) : Check Ty := do
  let target := callee.expr.withoutParens
  match target.form with
  | .name name =>
    let id ← bindingNamed target.id name target.span
    match ← referentOf id with
    | .func _ params =>
      let t ← readBinding id name target.span
      recordType target.id t
      recordType callee.expr.id t
      namedCall name t params args span
    | _ => valueCall callee args span
  | _ => valueCall callee args span

end Opal
