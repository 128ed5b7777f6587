import Std.Data.TreeMap
import Opal.Scope.Tree
import Opal.Syntax.Tree
import Opal.Ty.Registry

/-!
# The state of a check

The state of a check and the elementary steps that add to it. Every step is entered in a journal. A computation can stop in two
ways: with an error to be reported, or because it depends on something that failed and was reported before.
-/

namespace Opal

/-- A table of facts about numbered nodes, in the order of the numbers. -/
abbrev Table (α : Type) := Std.TreeMap Nat α

/-- Everything learned about a module. -/
structure Findings where
  types : TypeRegistry
  scopes : ScopeTree
  /-- The type of every expression that was examined with success. -/
  typeOf : Table Ty
  /-- The binding that each name in an expression refers to. -/
  refersTo : Table BindingId
  /-- The value of every constant declaration that was evaluated with success. -/
  valueOf : Table Value
  /-- The binding that each accepted declaration introduces. -/
  introduces : Table BindingId
  /-- What is wrong with the module, in the order in which it was found. -/
  errors : Array SemanticError

/-- An elementary step of a check. -/
inductive Event where
  | reported (e : SemanticError)
  /-- An examination ends without a report, since it depends on something that failed before. -/
  | dropped
  /-- The examination of an expression begins, with the type that is expected of it. -/
  | begun (id : NodeId) (expected : Option Ty)
  | typed (id : NodeId) (type : Ty)
  /-- The binding that a name refers to is found. -/
  | referred (id : NodeId) (binding : BindingId)
  | built (type : Ty)
  /-- A scope is opened, or left. -/
  | entered
  | left
  /-- The body of a function with this result type is entered, or left. -/
  | called (ret : Ty)
  | returned
  | bound (id : BindingId) (binding : Binding)
  /-- A declaration is accepted, and introduces this binding. -/
  | introduced (decl : Decl) (binding : BindingId)
  | changed (id : BindingId) (referent : Referent)
  /-- The declaration of a constant is found to have a value. -/
  | valued (id : NodeId) (v : Value)

/-- The state of a check. -/
structure State extends Findings where
  /-- The declarations of the constants, by binding. -/
  constants : Table ConstDecl
  /-- The result types of the functions and lambdas around, innermost first. -/
  resultTypes : List Ty
  /-- The steps taken so far, the latest first. -/
  journal : List Event

/-- The declarations of the constants after `binding` was introduced. -/
def Decl.addConstant (binding : BindingId) (constants : Table ConstDecl) : Decl → Table ConstDecl
  | .const d => constants.insert binding d
  | _ => constants

def State.initial : State where
  types := .initial
  scopes := .initial
  typeOf := ∅
  refersTo := ∅
  valueOf := ∅
  introduces := ∅
  errors := #[]
  constants := ∅
  resultTypes := []
  journal := []

/-- What a step changes, apart from the journal. -/
def State.apply (s : State) : Event → State
  | .reported e => { s with errors := s.errors.push e }
  | .dropped | .begun _ _ => s
  | .typed id type => { s with typeOf := s.typeOf.insert id type }
  | .referred id binding => { s with refersTo := s.refersTo.insert id binding }
  | .built type => { s with types := s.types.intern type }
  | .entered => { s with scopes := s.scopes.enter }
  | .left => { s with scopes := s.scopes.leave }
  | .called ret => { s with resultTypes := ret :: s.resultTypes }
  | .returned => { s with resultTypes := s.resultTypes.tail }
  | .bound _ binding => { s with scopes := s.scopes.bind binding }
  | .introduced decl binding =>
    { s with
      introduces := s.introduces.insert decl.id binding
      constants := decl.addConstant binding s.constants }
  | .changed id referent => { s with scopes := s.scopes.modifyReferent id fun _ => referent }
  | .valued id v => { s with valueOf := s.valueOf.insert id v }

/-- The state after one more step, which is entered in the journal. -/
def State.step (s : State) (e : Event) : State :=
  { s.apply e with journal := e :: s.journal }

/-- The state after what a name is bound to was changed by `f`. There is nothing to enter in the journal
if nothing is bound. -/
def State.marked (s : State) (id : BindingId) (f : Referent → Referent) : State :=
  let changes := s.scopes.bindings[id]?.map fun b => Event.changed id (f b.referent)
  { s with
    scopes := s.scopes.modifyReferent id f
    journal := changes.toList ++ s.journal }

theorem State.marked_eq_step (s : State) {id : BindingId} {b : Binding}
    (h : s.scopes.bindings[id]? = some b) (f : Referent → Referent) :
    s.marked id f = s.step (.changed id (f b.referent)) := by
  have hscopes : s.scopes.modifyReferent id f = s.scopes.modifyReferent id fun _ => f b.referent := by
    simp only [ScopeTree.modifyReferent, ScopeTree.mk.injEq, true_and, and_true]
    refine Array.ext_getElem? fun i => ?_
    rw [Array.getElem?_modify, Array.getElem?_modify]
    split
    · next hi => rw [← hi, h]; rfl
    · rfl
  unfold marked step apply
  rw [h, hscopes]
  rfl

theorem State.marked_eq_self (s : State) {id : BindingId}
    (h : s.scopes.bindings[id]? = none) (f : Referent → Referent) : s.marked id f = s := by
  have hbindings : s.scopes.bindings.modify id (fun b => { b with referent := f b.referent }) = s.scopes.bindings := by
    refine Array.ext_getElem? fun i => ?_
    rw [Array.getElem?_modify]
    split
    · next hi => rw [← hi, h]; rfl
    · rfl
  unfold marked ScopeTree.modifyReferent
  rw [h, hbindings]
  rfl

/-- Why the examination of a construct stops. -/
inductive Stop where
  /-- Something is wrong that was not reported yet. -/
  | error (e : SemanticError)
  /-- It depends on something that failed before. -/
  | blocked
deriving DecidableEq, Repr

/-- Computations that always come to an end of their own. -/
abbrev Run := StateM State

/-- Computations that examine a construct and may stop. -/
abbrev Check := ExceptT Stop Run

namespace Check

/-- Stops with an error at `span`. -/
def fail {α : Type} (cause : SemanticCause) (span : Span) : Check α :=
  throw (.error ⟨cause,span⟩)

def blocked {α : Type} : Check α :=
  throw .blocked

/-- Stops because one type, or sort of type, is required and another is found. -/
def mismatch {α : Type} (expected found : String) (span : Span) : Check α :=
  fail (.typeMismatch expected found) span

/-- Goes on with a result, or stops with its error. -/
def ofExcept {α : Type} : Except SemanticError α → Check α
  | .ok a => pure a
  | .error e => throw (.error e)

end Check

def perform (e : Event) : Run Unit :=
  modify fun s => s.step e

/-- The step in which a stop ends: an error is reported, and what is blocked is dropped. -/
def Stop.event : Stop → Event
  | .error e => .reported e
  | .blocked => .dropped

/-- Reports the error that a computation ended in, if it did. -/
def reportOutcome : Except Stop Unit → Run Unit
  | .error stop => perform stop.event
  | .ok () => pure ()

/-- Runs a computation and reports the error it stops with. -/
def reported (m : Check Unit) : Run Unit := do
  reportOutcome (← m.run)

theorem run_reported (m : Check Unit) (s : State) : (reported m).run s = (reportOutcome (m.run s).1).run (m.run s).2 := rfl

def recordType (id : NodeId) (type : Ty) : Run Unit :=
  perform (.typed id type)

def recordReference (id : NodeId) (binding : BindingId) : Run Unit :=
  perform (.referred id binding)

/-- Gives a type that was built a number, and gives it back. -/
def built (type : Ty) : Run Ty := do
  perform (.built type)
  return type

def currentScope : Run ScopeId := do
  return (← get).scopes.current

def enterScope : Run Unit :=
  perform .entered

def leaveScope : Run Unit :=
  perform .left

/-- Runs a computation in a scope of its own, which is left however the computation ends. -/
def inNewScope {α : Type} (m : Check α) : Check α := ExceptT.mk do
  enterScope
  let result ← m.run
  leaveScope
  return result

theorem run_inNewScope {α : Type} (m : Check α) (s : State) : (inNewScope m).run s =
      let r := m.run (s.step .entered)
      (r.1, r.2.step .left) := rfl

/-- Runs a computation inside a function with result type `ret`. -/
def returning (ret : Ty) (m : Run Unit) : Run Unit := do
  perform (.called ret)
  m
  perform .returned

/-- The result type of the innermost function around; nothing is returned outside of functions. -/
def resultType : Run Ty := do
  return (← get).resultTypes.head?.getD .void

/-- Changes what a name is bound to. -/
def modifyReferent (id : BindingId) (f : Referent → Referent) : Run Unit :=
  modify fun s => s.marked id f

def referentOf (id : BindingId) : Check Referent := do
  match (← get).scopes.bindings[id]? with
  | some b => return b.referent
  | none => Check.blocked

def declareIn (scope : ScopeId) (name : String) (span : Span) (referent : Referent) : Check BindingId := do
  let scopes := (← get).scopes
  Check.ofExcept (scopes.vet scope name span)
  perform (.bound scopes.bindings.size ⟨name,scope,span,referent⟩)
  return scopes.bindings.size

/-- Finds the binding that the name at node `id` refers to from `scope`, and notes it. -/
def findFrom (scope : ScopeId) (id : NodeId) (name : String) (span : Span) : Check BindingId := do
  let binding ← Check.ofExcept ((← get).scopes.lookup scope name span)
  recordReference id binding
  return binding

end Opal
