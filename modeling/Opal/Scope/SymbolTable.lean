import Std.Data.HashMap
import Opal.Scope.Tree

/-!
# Symbol tables

A tree of scopes as it is stored. Names are replaced by symbols, which all scopes share. Every scope has a map from symbols to
bindings, and the bindings of all scopes stand in one sequence.
-/

namespace Opal

abbrev Symbol := Nat

/-- A store of names that gives every name a symbol of its own. -/
structure Interner where
  Store : Type
  empty : Store
  /-- The symbol of a name, if it has one. -/
  symbol? : Store → String → Option Symbol
  /-- The symbol of a name, which is given one unless it has one. -/
  intern : Store → String → Symbol × Store
  symbol?_empty : ∀ name, symbol? empty name = none
  intern_of_symbol? : ∀ {store name symbol}, symbol? store name = some symbol → (intern store name).1 = symbol
  symbol?_intern : ∀ store name other, symbol? (intern store name).2 other =
    if other = name then some (intern store name).1 else symbol? store other
  injective : ∀ {store name other symbol}, symbol? store name = some symbol → symbol? store other = some symbol → name = other

/-- A scope with the bindings of the symbols that are declared in it. -/
structure Scope where
  parent : Option ScopeId
  names : Std.HashMap Symbol BindingId

/-- A declared name, told by its symbol. -/
structure SymbolBinding where
  symbol : Symbol
  scope : ScopeId
  span : Span
  referent : Referent

/-- A tree of scopes with the bindings declared in them, as it is stored. -/
structure SymbolTable (I : Interner) where
  interner : I.Store
  scopes : Array Scope
  bindings : Array SymbolBinding
  current : ScopeId

namespace SymbolTable

variable {I : Interner}

def initial : SymbolTable I :=
  ⟨I.empty,#[⟨none,∅⟩],#[],0⟩

def parent? (t : SymbolTable I) (scope : ScopeId) : Option ScopeId :=
  t.scopes[scope]?.bind (·.parent)

/-- The binding of a symbol in this very scope. -/
def bound? (t : SymbolTable I) (scope : ScopeId) (symbol : Symbol) : Option BindingId :=
  t.scopes[scope]?.bind (·.names[symbol]?)

/-- Opens a scope inside the current one and makes it current. -/
def enter (t : SymbolTable I) : SymbolTable I :=
  { t with scopes := t.scopes.push ⟨some t.current,∅⟩, current := t.scopes.size }

/-- Makes the parent of the current scope current. The outermost scope stays. -/
def leave (t : SymbolTable I) : SymbolTable I :=
  { t with current := (t.parent? t.current).getD t.current }

/-- Binds a symbol that the scope does not bind. -/
def bind (t : SymbolTable I) (b : SymbolBinding) : SymbolTable I :=
  { t with
    bindings := t.bindings.push b
    scopes := t.scopes.modify b.scope fun s => { s with names := s.names.insert b.symbol t.bindings.size } }

/-- Binds `name` in `scope`. Reserved names and names that the scope binds already are refused; the symbol that was given to
the name stays. -/
def declare (t : SymbolTable I) (scope : ScopeId) (name : String) (span : Span) (referent : Referent) :
    Except SemanticError BindingId × SymbolTable I :=
  if isReservedName name then (.error ⟨.reservedIdentifier name,span⟩, t)
  else
    let (symbol, interner) := I.intern t.interner name
    let t := { t with interner := interner }
    if (t.bound? scope symbol).isSome then (.error ⟨.duplicateDeclaration name,span⟩, t)
    else (.ok t.bindings.size, t.bind ⟨symbol,scope,span,referent⟩)

/-- The nearest binding of a symbol from `scope` outward, up to `n` steps. -/
def nearestWithin? (t : SymbolTable I) (symbol : Symbol) : Nat → ScopeId → Option BindingId
  | 0, scope => t.bound? scope symbol
  | n + 1, scope =>
    match t.bound? scope symbol with
    | some id => some id
    | none => (t.parent? scope).bind (t.nearestWithin? symbol n)

/-- The nearest binding of `name`, which is used at `span`, from `scope` outward. A parent has a smaller number than its
children, so there are at most as many steps outward as the number of the scope. -/
def lookup (t : SymbolTable I) (scope : ScopeId) (name : String) (span : Span) : Except SemanticError BindingId :=
  match (I.symbol? t.interner name).bind fun symbol => t.nearestWithin? symbol scope scope with
  | some id => .ok id
  | none => .error ⟨.undeclaredIdentifier name,span⟩

/-- Moves a variable to another stage of its declaration. -/
def setStage (t : SymbolTable I) (id : BindingId) (stage : VarStage) : SymbolTable I :=
  { t with bindings := t.bindings.modify id fun b => { b with referent := b.referent.setVarStage stage } }

end SymbolTable

end Opal
