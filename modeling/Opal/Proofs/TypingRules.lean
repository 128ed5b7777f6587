import Opal.Check.Literal
import Opal.Proofs.Nodes

/-!
# The typing rules

What the recorded types of an expression and of those inside it have to do with each other, one rule for each form, whatever way
they came about.
-/

namespace Opal

variable {t : Ty}

namespace Ty

mutual

/-- Whether values have this type. Nothing that failed has a part in it, and nothing is of no type but the
result of a function. -/
def isValue : Ty → Bool
  | error | void => false
  | bool | char | string | int _ => true
  | array element _ => element.isValue
  | reference _ target => target.isValue
  | function params ret => areValues params && (ret == void || ret.isValue)

def areValues : List Ty → Bool
  | [] => true
  | t :: ts => t.isValue && areValues ts

end

/-- Whether an expression can have this type: that of a value, or none as the result of a call. -/
def isResult (t : Ty) : Bool :=
  t == void || t.isValue

lemma areValues_iff (ts : List Ty) : areValues ts = true ↔ ∀ t ∈ ts, t.isValue = true := by
  induction ts with
  | nil => simp [areValues]
  | cons t ts ih => simp [areValues, ih]

lemma isValue_function (params : List Ty) (ret : Ty) : (function params ret).isValue = true ↔
      (∀ t ∈ params, t.isValue = true) ∧ ret.isResult = true := by
  rw [isValue, Bool.and_eq_true, areValues_iff, isResult]

lemma isResult_of_isValue (h : t.isValue = true) : t.isResult = true := by
  simp [isResult, h]

lemma isValue_of_isResult (h : t.isResult = true) (hv : t ≠ void) : t.isValue = true := by
  simpa [isResult, hv] using h

lemma ne_error_of_isResult (h : t.isResult = true) : t ≠ error := by
  rintro rfl
  exact absurd h (by decide)

lemma ne_void_of_isValue (h : t.isValue = true) : t ≠ void := by
  rintro rfl
  exact absurd h (by decide)

lemma eq_of_fit_equal {u : Ty} (ht : t.isResult = true) (hu : u.isResult = true) (h : fit t u = .equal) : t = u := by
  unfold fit at h
  split at h
  case isTrue heq =>
    rcases heq with heq | heq | heq
    · exact heq
    · exact absurd heq (ne_error_of_isResult ht)
    · exact absurd heq (ne_error_of_isResult hu)
  case isFalse =>
    split at h
    · split at h <;> cases h
    · cases h

lemma eq_bool_of_fit (ht : t.isResult = true) (h : (fit t bool).ok = true) : t = bool := by
  by_contra hne
  have : fit t bool = .incompatible := by
    unfold fit
    rw [if_neg (by simp [hne, ne_error_of_isResult ht])]
    split
    · next heq => cases heq
    · rfl
  rw [this] at h
  cases h

lemma eq_int_of_isInt (h : t.isInt = true) : ∃ i, t = int i := by
  cases t with
  | int i => exact ⟨i,rfl⟩
  | _ => cases h

end Ty

/-! ## Reading the findings -/

namespace Findings

/-- What a name is bound to. -/
def referent? (f : Findings) (b : BindingId) : Option Referent :=
  f.scopes.bindings[b]?.map (·.referent)

/-- The recorded type of an expression. -/
def typeAt (f : Findings) (e : Expr) : Option Ty :=
  f.typeOf[e.id]?

/-- What the name at a node refers to. -/
def referentAt (f : Findings) (id : NodeId) : Option Referent :=
  f.refersTo[id]?.bind f.referent?

end Findings

def Referent.isFunc : Referent → Bool
  | .func .. => true
  | _ => false

def Referent.mutability : Referent → Option Bool
  | .var _ mutable _ => some mutable
  | _ => none

def Ty.targetMutability : Ty → Option Bool
  | .reference mutable _ => some mutable
  | _ => none

mutual

/-- The mutability of the storage location that an expression is. -/
def Expr.mutability (f : Findings) : Expr → Option Bool
  | ⟨id,_,form⟩ => form.mutability f id

def ExprForm.mutability (f : Findings) (id : NodeId) : ExprForm → Option Bool
  | .name _ => (f.referentAt id).bind Referent.mutability
  | .paren e => e.mutability f
  | .index base _ => base.mutability f
  | .deref e => (f.typeAt e).bind Ty.targetMutability
  | _ => none

end

/-! ## The rules -/

namespace Findings

/-- The argument has a type that fits the type of its parameter. -/
def Fits (f : Findings) (e : Expr) (expected : Ty) : Prop :=
  ∃ t, f.typeAt e = some t ∧ (Ty.fit t expected).ok = true

def ObeysBinary (f : Findings) (op : BinaryOp) (l r : Expr) (t : Ty) : Prop :=
  if op.isArithmetic then
    t.isInt = true ∧ f.typeAt l = some t ∧ f.typeAt r = some t
  else if op.isLogical then
    t = .bool ∧ f.typeAt l = some .bool ∧ f.typeAt r = some .bool
  else
    t = .bool ∧ ∃ u, f.typeAt l = some u ∧ f.typeAt r = some u ∧ (u.isInt = true ∨ u = .char ∨ u = .bool ∧ op.isOrdering = false)

/-- The rule of a negation of type `t`; a negated literal is one literal. -/
def ObeysNegation (f : Findings) (e : Expr) (t : Ty) : Prop :=
  f.typeAt e = some t ∧ ∃ i, t = .int i ∧
    match e.literal? with
    | some text => ∃ n, literalValue? text = some n ∧ i.contains (-n) = true
    | none => i.signed = true

/-- The rule of the body of a lambda with result type `ret`. A result that nothing is done with may have
any type. -/
def ObeysBody (f : Findings) (ret : Ty) : LambdaBody → Prop
  | .expr e => ∃ u, f.typeAt e = some u ∧ (ret = .void ∨ (Ty.fit u ret).ok = true)
  | .block _ => True

/-- The rule of a lambda of type `t`. -/
def ObeysLambda (f : Findings) (params : List LambdaParam) (body : LambdaBody) (t : Ty) : Prop :=
  ∃ types ret, t = .function types ret ∧ types.length = params.length ∧ f.ObeysBody ret body

/-- The rule of an expression whose recorded type is `t`. -/
def Obeys (f : Findings) (e : Expr) (t : Ty) : Prop :=
  match e.form with
  | .int text => ∃ i n, t = .int i ∧ literalValue? text = some n ∧ i.contains n = true
  | .bool _ => t = .bool
  | .char _ => t = .char
  | .string _ => t = .string
  | .name _ => ∃ r, f.referentAt e.id = some r ∧ r.type? = some t
  | .binary op l r => f.ObeysBinary op l r t
  | .unary .neg x => f.ObeysNegation x t
  | .unary .not x => t = .bool ∧ f.typeAt x = some .bool
  | .addressOf x => ∃ m u, f.typeAt x = some u ∧ x.mutability f = some m ∧ t = .reference m u
  | .deref x => ∃ m, f.typeAt x = some (.reference m t)
  | .index base index => ∃ n i, f.typeAt base = some (.array t n) ∧ f.typeAt index = some (.int i)
  | .call callee args => ∃ params, f.typeAt callee = some (.function params t) ∧
      ∃ bound : List Argument, bound.Perm args ∧ bound.Forall₂ (fun a p => f.Fits a.value p) params
  | .array elements => ∃ element, t = .array element elements.length ∧
      ∀ x ∈ elements, f.Fits x element
  | .lambda params _ body => f.ObeysLambda params body t
  -- The inner expression of doubled parentheses may have no recorded type.
  | .paren x => ∀ u, f.typeAt x = some u → u = t

/-- The rule of a literal that an expression of `N` negates: it is the negated value that is in range. -/
def ObeysNegated (N : List Node) (e : Expr) (t : Ty) : Prop :=
  ∃ p text i n, Node.expr p ∈ N ∧ p.form = .unary .neg e ∧ e.form = .int text ∧ t = .int i ∧
    literalValue? text = some n ∧ i.contains (-n) = true

/-- Every expression among `N` that has a recorded type obeys its rule. -/
def ObeysOn (f : Findings) (N : List Node) : Prop :=
  ∀ e, Node.expr e ∈ N → ∀ t, f.typeAt e = some t → t.isResult = true ∧ (f.Obeys e t ∨ ObeysNegated N e t)

lemma ObeysNegated.mono {N N' : List Node} {e : Expr} (h : ObeysNegated N e t) (hsub : N ⊆ N') : ObeysNegated N' e t := by
  obtain ⟨p,text,i,n,hp,hrest⟩ := h
  exact ⟨p,text,i,n,hsub hp,hrest⟩

end Findings

end Opal
