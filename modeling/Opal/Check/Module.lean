import Opal.Check.Tree

/-!
# Checking modules

The declarations of a module are bound first. Its variables and constants are then examined in source
order, and after them the bodies of its functions, which may read every variable of the module.
-/

namespace Opal

def Decl.isFunction : Decl → Bool
  | .func _ => true
  | _ => false

/-- The declarations of a module in the order in which they are examined. -/
def Module.checkOrder (m : Module) : List Decl :=
  m.decls.filter (!·.isFunction) ++ m.decls.filter (·.isFunction)

/-- The examination of a module. -/
def Module.run (m : Module) : Run Unit := do
  declareAll m.decls
  m.checkOrder.forM fun decl => reported decl.check

/-- Everything that can be learned about a module. -/
def Module.check (m : Module) : Findings :=
  (m.run State.initial).2.toFindings

namespace Findings

def isClean (a : Findings) : Bool :=
  a.errors.isEmpty

def codes (a : Findings) : List String :=
  a.errors.toList.map (·.cause.code)

/-- The type of what the declaration with number `id` introduces, as far as it is known. -/
def typeOfDecl? (a : Findings) (id : NodeId) : Option Ty := do
  let binding ← a.introduces[id]?
  let b ← a.scopes.bindings[binding]?
  b.referent.type?

/-- A listing of the bindings: what each one is, its name and its type. -/
def listing (a : Findings) : String :=
  String.join (a.scopes.bindings.toList.map line)
where
  /-- The line of a binding. -/
  line (b : Binding) : String :=
    let type := match b.referent.type? with
      | some t => t.display
      | none => "<unchecked>"
    b.referent.word ++ " " ++ b.name ++ ": " ++ type ++ "\n"

end Findings

end Opal
