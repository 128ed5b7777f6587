import Opal.Check.Operand

/-!
# The rules of operators

The types of unary and binary operations, of references and of indexing.
-/

namespace Opal

/-- What the left operand of a binary operator has to be, in words. -/
def BinaryOp.wanted (op : BinaryOp) : String :=
  if op.isLogical then "bool"
  else if op.isArithmetic then "integer"
  else "integer, bool or char"

/-- The types of the operands of a binary operator. An operand without a type of its own is examined
second, with the type of the other. -/
def operandTypes (op : BinaryOp) (left right : Operand) (expected : Option Ty) : Check (Ty × Ty) := do
  let first := op.firstExpected expected
  if left.expr.isContextual && !right.expr.isContextual then
    let r ← right.value first
    let l ← left.value (some r)
    return (l, r)
  else
    let l ← left.value first
    let r ← right.value (some l)
    return (l, r)

def binaryValue (op : BinaryOp) (left right : Operand) (expected : Option Ty) : Check Ty := do
  let (l, r) ← operandTypes op left right expected
  if !(op.accepts l || l == .error) then
    Check.mismatch op.wanted l.display left.expr.span
  else if Ty.fit r l ≠ .equal then
    Check.mismatch l.display r.display right.expr.span
  else
    return if op.isArithmetic then l else .bool

/-- The type of a negation; a negated literal is one literal. -/
def negationValue (operand : Operand) (span : Span) (expected : Option Ty) : Check Ty := do
  match operand.expr.literal? with
  | some text =>
    let v ← literalOfType text true expected span
    recordType operand.expr.id v.type
    return v.type
  | none =>
    let t ← operand.value expected
    match t with
    | .int i => if i.signed then return t else notSigned t
    | .error => return t
    | _ => notSigned t
where
  /-- Stops because the operand is no signed integer. -/
  notSigned (t : Ty) : Check Ty :=
    Check.mismatch "signed integer" t.display operand.expr.span

def complementValue (operand : Operand) : Check Ty := do
  let _ ← operand.against .bool
  return .bool

def addressValue (operand : Operand) : Check Ty := do
  let place ← operand.place .addressOf
  built (.reference place.mutable place.type)

/-- The target of the reference that an operand is, as a storage location. -/
def derefPlace (operand : Operand) : Check Place := do
  let t ← operand.value none
  match t with
  | .reference mutable target => return ⟨target,mutable,.deref t⟩
  | _ => Check.mismatch "a reference" t.display operand.expr.span

def derefValue (operand : Operand) : Check Ty := do
  return (← derefPlace operand).type

/-- The type of an element of an array of type `base`. The index is an integer of any type. -/
def elementType (base : Ty) (baseSpan : Span) (index : Operand) : Check Ty := do
  match base with
  | .array element _ =>
    if index.expr.isContextual then
      let _ ← index.value (some (.int .u32))
      return element
    else
      let t ← index.value none
      if t.isInt then return element
      else Check.mismatch "integer" t.display index.expr.span
  | _ => Check.mismatch "an array" base.display baseSpan

def indexValue (base index : Operand) : Check Ty := do
  elementType (← base.value none) base.expr.span index

/-- An element of an array as a storage location, which is as mutable as the array. -/
def indexPlace (base index : Operand) (use : PlacePurpose) : Check Place := do
  let place ← base.place use
  let element ← elementType place.type base.expr.span index
  return { place with type := element }

end Opal
