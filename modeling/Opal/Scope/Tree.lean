import Opal.Scope.Binding
import Opal.Ty.Named

/-!
# Scope trees

A tree of scopes with the bindings declared in them. Scopes and bindings are numbered in the order
in which they come up and are never taken away: leaving a scope only makes its parent the current one.
-/

namespace Opal

/-- A tree of scopes with the bindings declared in them. -/
structure ScopeTree where
  /-- The parent of each scope. -/
  parents : Array (Option ScopeId)
  /-- All bindings, in the order of their declarations. -/
  bindings : Array Binding
  current : ScopeId
deriving DecidableEq, Repr

namespace ScopeTree

def initial : ScopeTree :=
  ⟨#[none],#[],0⟩

def parent? (t : ScopeTree) (scope : ScopeId) : Option ScopeId :=
  t.parents[scope]?.join

def nextScope (t : ScopeTree) : ScopeId :=
  t.parents.size

/-- Opens a scope inside the current one and makes it current. -/
def enter (t : ScopeTree) : ScopeTree :=
  { t with parents := t.parents.push (some t.current), current := t.nextScope }

/-- Makes the parent of the current scope current. The outermost scope stays. -/
def leave (t : ScopeTree) : ScopeTree :=
  { t with current := (t.parent? t.current).getD t.current }

/-- A scope and the scopes around it, innermost first, up to `n` steps outward. -/
def chainWithin (t : ScopeTree) : Nat → ScopeId → List ScopeId
  | 0, scope => [scope]
  | n + 1, scope =>
    match t.parent? scope with
    | none => [scope]
    | some p => scope :: chainWithin t n p

/-- A scope and the scopes around it, innermost first. A parent has a smaller number than its
children, so there are at most as many steps outward as the number of the scope. -/
def chain (t : ScopeTree) (scope : ScopeId) : List ScopeId :=
  t.chainWithin scope scope

def find? (t : ScopeTree) (scope : ScopeId) (name : String) : Option BindingId :=
  t.bindings.findIdx? fun b => b.scope == scope && b.name == name

/-- The nearest binding of `name`, from `scope` outward. -/
def nearest? (t : ScopeTree) (scope : ScopeId) (name : String) : Option BindingId :=
  (t.chain scope).findSome? fun s => t.find? s name

/-- The nearest binding of `name`, which is used at `span`, from `scope` outward. -/
def lookup (t : ScopeTree) (scope : ScopeId) (name : String) (span : Span) : Except SemanticError BindingId :=
  match t.nearest? scope name with
  | some id => .ok id
  | none => .error ⟨.undeclaredIdentifier name,span⟩

def bind (t : ScopeTree) (binding : Binding) : ScopeTree :=
  { t with bindings := t.bindings.push binding }

/-- Whether `name` may be bound in `scope`: reserved names and names that the scope binds already are
refused. -/
def vet (t : ScopeTree) (scope : ScopeId) (name : String) (span : Span) : Except SemanticError Unit :=
  if isReservedName name then .error ⟨.reservedIdentifier name,span⟩
  else if (t.find? scope name).isSome then .error ⟨.duplicateDeclaration name,span⟩
  else .ok ()

/-- Binds `name` in `scope`, unless it is refused. -/
def declare (t : ScopeTree) (scope : ScopeId) (name : String) (span : Span) (referent : Referent) :
    Except SemanticError (BindingId × ScopeTree) := do
  t.vet scope name span
  return (t.bindings.size, t.bind ⟨name,scope,span,referent⟩)

def modifyReferent (t : ScopeTree) (id : BindingId) (f : Referent → Referent) : ScopeTree :=
  { t with bindings := t.bindings.modify id fun b => { b with referent := f b.referent } }

end ScopeTree

end Opal
