import Opal.Check.Evaluation

/-!
# Operands

What the rule of an expression needs to know of the expressions inside it: how they are written, how
they are examined as values, and how they are examined as storage locations.
-/

namespace Opal

/-- What a storage location is wanted for. -/
inductive PlacePurpose where
  | assign
  | addressOf
deriving DecidableEq, Repr

/-- Where the mutability of a storage location comes from. -/
inductive PlaceOrigin where
  /-- A variable. -/
  | binding (name : String)
  /-- The target of a reference of this type. -/
  | deref (reference : Ty)
deriving DecidableEq, Repr

/-- A storage location. -/
structure Place where
  type : Ty
  mutable : Bool
  origin : PlaceOrigin
deriving DecidableEq, Repr

/-- An expression with the two ways to examine it. -/
structure Operand where
  expr : Expr
  /-- The type of the expression as a value. The expected type, if there is one, is where literals and
  lambdas take their types from; it is not enforced. -/
  value : Option Ty → Check Ty
  /-- The expression as a storage location. -/
  place : PlacePurpose → Check Place

/-- Examines a value that has to fit `expected`, and gives its own type. -/
def Operand.against (e : Operand) (expected : Ty) : Check Ty := do
  let found ← e.value (some expected)
  if (Ty.fit found expected).ok then return found
  else Check.mismatch expected.display found.display e.expr.span

/-- The type of the value of a binding, which is read by `name` at `span`. -/
def readBinding (id : BindingId) (name : String) (span : Span) : Check Ty := do
  match ← referentOf id with
  | .var (some t) _ .initialized => return t
  | .var none _ .initialized => Check.blocked
  | .var _ _ .failed => Check.blocked
  | .var _ _ .declared | .var _ _ .initializing =>
    Check.fail (.useBeforeInitialization name) span
  | .const .. => return (← constantValue id).type
  | .func t _ => if t = .error then Check.blocked else return t

/-- Finds the binding that the name at node `id` refers to from the current scope. -/
def bindingNamed (id : NodeId) (name : String) (span : Span) : Check BindingId := do
  findFrom (← currentScope) id name span

def readName (id : NodeId) (name : String) (span : Span) : Check Ty := do
  readBinding (← bindingNamed id name span) name span

/-- The storage location of the name at node `id`: it has to be a variable. -/
def namedPlace (id : NodeId) (name : String) (span : Span) (use : PlacePurpose) : Check Place := do
  let binding ← bindingNamed id name span
  match ← referentOf binding with
  | .var _ mutable _ =>
    let t ← readBinding binding name span
    return ⟨t,mutable,.binding name⟩
  | _ =>
    match use with
    | .assign => Check.fail (.immutableAssignment name) span
    | .addressOf => Check.fail .notAPlace span

end Opal
