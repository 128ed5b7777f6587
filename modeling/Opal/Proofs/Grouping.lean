import Opal.Proofs.Acceptance
import Opal.Proofs.PrintableTrees

/-!
# How a parsed tree is grouped

Operators are grouped by their precedence, those of one precedence from the left, and a lambda without braces takes all that
follows it.
-/

namespace Opal

/-- The parts of an expression of this form need no parentheses: the left operand of a binary operator binds at least as
tightly as the operator and does not end in a lambda that would take the operator, the right operand binds tighter, the
operand of a unary operator has no binary operator outside brackets, and what is called, indexed or dereferenced has no
operator before it either. -/
def ExprForm.Grouped : ExprForm → Prop
  | .binary op l r =>
    l.BindsAtLeast op.precedence ∧ r.BindsAtLeast (op.precedence + 1) ∧ l.endsInLambda = false
  | .unary _ e | .addressOf e => e.isOperand
  | .deref e | .index e _ | .call e _ => e.isBase
  | _ => True

/-- All expressions among the nodes are grouped. -/
def Groups (N : List Node) : Prop :=
  ∀ e, Node.expr e ∈ N → e.form.Grouped

namespace Groups

@[simp] lemma nil : Groups [] := by
  simp [Groups]

@[simp] lemma append_iff {N N' : List Node} : Groups (N ++ N') ↔ Groups N ∧ Groups N' := by
  simp only [Groups, List.mem_append, or_imp, forall_and]

@[simp] lemma decl (d : Decl) : Groups [.decl d] := by
  simp [Groups]

@[simp] lemma expr_iff {e : Expr} : Groups [.expr e] ↔ e.form.Grouped := by
  simp [Groups]

end Groups

/-! ### Expressions that go no further -/

/-- The expression does not go on with a token of kind `k`: that is no bracket or caret, and an operator only as `P` says.
A lambda without braces would take every operator. -/
structure Expr.Stops (e : Expr) (P : BinaryOp → Prop) (k : Kind) : Prop where
  base : k.opensPostfix = false
  operator : ∀ op, BinaryOp.ofKind? k = some op → P op ∧ e.endsInLambda = false

namespace Expr

variable {e : Expr} {P : BinaryOp → Prop} {k : Kind}

lemma isOperand_of_isBase (h : e.isBase) : e.isOperand := by
  unfold isBase at h
  unfold isOperand
  split at h <;> simp_all

lemma bindsAtLeast_of_isOperand (h : e.isOperand) (least : Nat) : e.BindsAtLeast least := by
  intro op l r hform
  rw [isOperand, hform] at h
  cases h

lemma Stops.of_eq (h : e.Stops P k) {e' : Expr} {P' : BinaryOp → Prop} (hends : e'.endsInLambda = e.endsInLambda)
    (hP : ∀ op, P op → P' op) : e'.Stops P' k where
  base := h.base
  operator op hop := by
    obtain ⟨hP',hlambda⟩ := h.operator op hop
    exact ⟨hP op hP',hends.trans hlambda⟩

end Expr

/-! ### Where a rule for expressions stops -/

/-- The kind of the token ahead, be it the end of the input. -/
def Cursor.ahead (c : Cursor) : Kind :=
  kindAhead (c.tokens.map Token.kind)

lemma Cursor.ahead_eq_of_tokens {c c' : Cursor} (h : c'.tokens = c.tokens) : c'.ahead = c.ahead := by
  rw [ahead, h, ahead]

namespace Rules

/-- What the rule for expressions gives: operators that bind at least as tightly as `least`, and ahead none that does. -/
structure ExprRead (least : Nat) (e : Expr) (c : Cursor) : Prop where
  shaped : e.Shaped
  binds : e.BindsAtLeast least
  stops : e.Stops (·.precedence < least) c.ahead

/-- What the rule for operands gives: no binary operator, and nothing ahead that binds tighter than one. -/
structure OperandRead (e : Expr) (c : Cursor) : Prop where
  shaped : e.Shaped
  operand : e.isOperand
  stops : e.Stops (fun _ => True) c.ahead

/-- What a primary expression is: something that may be called, indexed or dereferenced, or a lambda without braces, after
which nothing comes that it could take. -/
structure PrimaryRead (e : Expr) (c : Cursor) : Prop where
  shaped : e.Shaped
  operand : e.isOperand
  base_or_stops : e.isBase ∨ e.Stops (fun _ => False) c.ahead

/-- An expression with operators from the left up to here: it does not bind looser than an operator ahead. -/
structure LeftRead (least : Nat) (e : Expr) (c : Cursor) : Prop where
  shaped : e.Shaped
  binds : e.BindsAtLeast least
  stops : e.Stops (e.BindsAtLeast ·.precedence) c.ahead

lemma PrimaryRead.of_isBase {e : Expr} (hshaped : e.Shaped) (h : e.isBase) (c : Cursor) : PrimaryRead e c :=
  ⟨hshaped,Expr.isOperand_of_isBase h,.inl h⟩

lemma PrimaryRead.isBase {e : Expr} {c : Cursor} (he : PrimaryRead e c) (h : c.ahead.opensPostfix) : e.isBase := by
  obtain hbase | hstops := he.base_or_stops
  · exact hbase
  · rw [hstops.base] at h
    cases h

lemma PrimaryRead.stop {e : Expr} {c : Cursor} (he : PrimaryRead e c) (h : c.ahead.opensPostfix = false) : OperandRead e c where
  shaped := he.shaped
  operand := he.operand
  stops := by
    obtain hbase | hstops := he.base_or_stops
    · exact ⟨h,fun op _ => ⟨trivial,Expr.endsInLambda_of_isBase hbase⟩⟩
    · exact hstops.of_eq rfl fun _ => False.elim

lemma opensPostfix_eq_false {k : Kind} (hparen : k.sameClass (.punct .lparen) = false)
    (hbracket : k.sameClass (.punct .lbracket) = false) (hcaret : k.sameClass (.punct .caret) = false) :
    k.opensPostfix = false := by
  unfold Kind.opensPostfix
  split <;> simp_all

lemma OperandRead.left {e : Expr} {c : Cursor} (he : OperandRead e c) (least : Nat) : LeftRead least e c where
  shaped := he.shaped
  binds := Expr.bindsAtLeast_of_isOperand he.operand least
  stops := he.stops.of_eq rfl fun op _ => Expr.bindsAtLeast_of_isOperand he.operand op.precedence

lemma LeftRead.stop {least : Nat} {e : Expr} {c : Cursor} (he : LeftRead least e c)
    (h : ∀ op, BinaryOp.ofKind? c.ahead = some op → op.precedence < least) : ExprRead least e c where
  shaped := he.shaped
  binds := he.binds
  stops := ⟨he.stops.base,fun op hop => ⟨h op hop,(he.stops.operator op hop).2⟩⟩

lemma LeftRead.grouped {least : Nat} {left right : Expr} {c c1 : Cursor} {op : BinaryOp} (hleft : LeftRead least left c)
    (hop : BinaryOp.ofKind? c.ahead = some op) (hright : ExprRead (op.precedence + 1) right c1) :
    (ExprForm.binary op left right).Grouped :=
  ⟨(hleft.stops.operator op hop).1,hright.binds,(hleft.stops.operator op hop).2⟩

/-- The operator and its right operand are taken; an operator after them binds no tighter than the one taken. -/
theorem LeftRead.binary {least : Nat} {left right : Expr} {c c1 : Cursor} {op : BinaryOp} (hleft : LeftRead least left c)
    (hle : ¬op.precedence < least) (hright : ExprRead (op.precedence + 1) right c1) (id : NodeId) (span : Span) :
    LeftRead least ⟨id,span,.binary op left right⟩ c1 where
  shaped := by simp [hleft.shaped, hright.shaped]
  binds := by
    rintro _ _ _ ⟨⟩
    exact Nat.le_of_not_lt hle
  stops := by
    refine hright.stops.of_eq (by rw [Expr.endsInLambda, ExprForm.endsInLambda]) fun op' hop' => ?_
    rintro _ _ _ ⟨⟩
    exact Nat.le_of_lt_succ hop'

end Rules

end Opal
