import Opal.Constant.Value
import Opal.Source.Span

/-!
# Bindings

What a name is bound to, and how far the examination of its declaration has come.
-/

namespace Opal

abbrev ScopeId := Nat

abbrev BindingId := Nat

/-- How far the examination of a variable has come. -/
inductive VarStage where
  /-- Declared; its initial value has not been reached. -/
  | declared
  /-- Its initial value is being examined. -/
  | initializing
  | initialized
  | failed
deriving DecidableEq, Repr

/-- How far the evaluation of a constant has come. -/
inductive ConstStage where
  | pending
  | inProgress
  | done (value : Value)
  | failed
deriving DecidableEq, Repr

/-- A parameter of a declared function, as calls see it. -/
structure Formal where
  name : String
  anonymous : Bool
  type : Ty
deriving DecidableEq, Repr

/-- What a name is bound to. -/
inductive Referent where
  /-- A variable; its type is known once its declaration has been examined. -/
  | var (type : Option Ty) (mutable : Bool) (stage : VarStage)
  /-- A constant; its type is known once it has been evaluated. -/
  | const (type : Option Ty) (stage : ConstStage)
  /-- A function; its type is an error until its signature is known. -/
  | func (type : Ty) (params : List Formal)
deriving DecidableEq, Repr

namespace Referent

def declaredVar (mutable : Bool) : Referent :=
  .var none mutable .declared

def initializedVar (type : Ty) (mutable : Bool) : Referent :=
  .var (some type) mutable .initialized

def declaredConst : Referent :=
  .const none .pending

def declaredFunc : Referent :=
  .func .error []

/-- The word for what a name is bound to. -/
def word : Referent → String
  | var .. => "variable"
  | const .. => "constant"
  | func .. => "function"

/-- The type of what a name is bound to, as far as it is known. -/
def type? : Referent → Option Ty
  | var type .. => type
  | const type _ => type
  | func type _ => some type

/-- A variable moved to `stage`; everything else is left alone. -/
def setVarStage (stage : VarStage) : Referent → Referent
  | var type mutable _ => .var type mutable stage
  | referent => referent

/-- A variable with its type; everything else is left alone. -/
def setVarType (type : Ty) : Referent → Referent
  | var _ mutable stage => .var (some type) mutable stage
  | referent => referent

/-- A constant moved to `stage`; everything else is left alone. -/
def setConstStage (stage : ConstStage) : Referent → Referent
  | const type _ => .const type stage
  | referent => referent

/-- A constant with its type; everything else is left alone. -/
def setConstType (type : Ty) : Referent → Referent
  | const _ stage => .const (some type) stage
  | referent => referent

end Referent

/-- A declared name. -/
structure Binding where
  name : String
  scope : ScopeId
  span : Span
  referent : Referent
deriving DecidableEq, Repr

end Opal
