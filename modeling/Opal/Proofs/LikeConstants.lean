import Opal.Proofs.LikeStates

/-!
# Constants of trees that are alike

Constant expressions that are alike have the same values, and written types that are alike stand for the same types, whatever
the constants in them are.
-/

namespace Opal

variable {d d' : ConstDecl} {e e' l l' r r' size size' : Expr}
    {leftValue leftValue' rightValue rightValue' value value' : Option Ty → Check Value}

/-- The value has the type that is expected of it, unless that is the type of something that failed. -/
def Value.Meets (v : Value) (expected : Option Ty) : Prop :=
  ∀ t, expected = some t → t ≠ .error → v.type = t

/-- Named constants have the same values. -/
def Likeness.Constants (L : Likeness) (constants constants' : Constants) : Prop :=
  ∀ b, L.Agree Eq (constants b) (constants' b)

variable {L : Likeness} {constants constants' : Constants}

/-! ## The rules of constant expressions -/

section Rules

variable {span span' : Span} {expected : Option Ty}

lemma literalOfType_agree (hspan : L.span span span') (text : String) (negative : Bool) (expected : Option Ty) :
    L.Agree Eq (literalOfType text negative expected span) (literalOfType text negative expected span') := by
  unfold literalOfType
  cases expected with
  | none => exact .fail hspan
  | some t =>
    cases t with
    | error => exact .blocked
    | int i =>
      cases literalValue? text with
      | none => exact .fail hspan
      | some n => exact .ite (.pure rfl) (.fail hspan)
    | _ => exact .mismatch hspan

lemma constantName_agree (hconst : L.Constants constants constants') (hspan : L.span span span') (scope : ScopeId)
    (id : NodeId) (name : String) :
    L.Agree Eq (constantName constants scope id name span) (constantName constants' scope id name span') := by
  refine .andThen (findFrom_agree hspan scope id name) fun b => .andThen (referentOf_agree b) fun r => ?_
  cases r with
  | const t stage =>
    cases stage with
    | inProgress => exact .fail hspan
    | pending | done | failed => exact hconst b
  | var | func => exact .fail hspan

lemma negateValue_agree {operandSpan operandSpan' : Span} (hoperand : L.span operandSpan operandSpan')
    (hspan : L.span span span') (v : Value) :
    L.Agree Eq (negateValue v operandSpan span) (negateValue v operandSpan' span') := by
  cases v with
  | int n i => exact .ite (.ite (.pure rfl) (.fail hspan)) (.mismatch hoperand)
  | bool | char => exact .mismatch hoperand

lemma constantNegation_literal_agree {text : String} (hlit : e.literal? = some text)
    (hlit' : e'.literal? = some text) (hid : L.Both e.id e'.id) (hspan : L.span span span')
    (value value' : Option Ty → Check Value) :
    L.Agree Eq (constantNegation e value span expected) (constantNegation e' value' span' expected) := by
  unfold constantNegation
  rw [hlit, hlit']
  exact .andThen (literalOfType_agree hspan text true expected) fun v =>
    .andThen (.lift (.perform (.typed hid v.type))) fun _ => .pure rfl

lemma constantNegation_agree (he : e.Like L e') (hlit : e.literal? = none) (hspan : L.span span span')
    (h : L.Agree Eq (value expected) (value' expected)) :
    L.Agree Eq (constantNegation e value span expected) (constantNegation e' value' span' expected) := by
  unfold constantNegation
  rw [he.literal?_eq, hlit]
  exact h.andThen fun v => negateValue_agree he.span hspan v

lemma constantComplement_agree (h : ∀ expected, L.Agree Eq (value expected) (value' expected)) :
    L.Agree Eq (constantComplement value) (constantComplement value') := by
  refine (h _).andThen fun v => ?_
  cases v with
  | bool b => exact .pure rfl
  | int | char => exact .blocked

section

variable (hl : l.Like L l') (hr : r.Like L r') (hleft : ∀ expected, L.Agree Eq (leftValue expected) (leftValue' expected))
include hl hr hleft

section

variable (hright : ∀ expected, L.Agree Eq (rightValue expected) (rightValue' expected))
include hright

lemma constantOperands_agree (op : BinaryOp) : L.Agree Eq (constantOperands op l r leftValue rightValue expected)
      (constantOperands op l' r' leftValue' rightValue' expected) := by
  unfold constantOperands
  rw [hl.isContextual_eq, hr.isContextual_eq]
  refine .ite ?_ ?_
  · exact (hright _).andThen fun vr => (hleft _).andThen fun vl => .pure rfl
  · exact (hleft _).andThen fun vl => (hright _).andThen fun vr => .pure rfl

lemma constantBinary_agree (op : BinaryOp) (hspan : L.span span span') :
    L.Agree Eq (constantBinary op l r leftValue rightValue span expected)
      (constantBinary op l' r' leftValue' rightValue' span' expected) := by
  refine (constantOperands_agree hl hr hleft hright op).andThen fun vs => ?_
  obtain ⟨vl,vr⟩ := vs
  refine .ite (.ofExcept ?_) (.mismatch hl.span)
  cases vl.binary op vr with
  | ok v => exact .ok rfl
  | error cause => exact .error ⟨rfl,hspan⟩

end

end

lemma requireType_agree (hspan : L.span span span') (v : Value) (expected : Option Ty) :
    L.Agree (fun _ _ => v.Meets expected) (requireType v expected span) (requireType v expected span') := by
  cases expected with
  | none => exact .pure nofun
  | some t =>
    refine fun w => Coupling.InStep.ite (fun _ => Likeness.Agree.mismatch hspan w) fun h => .pure ?_
    rintro _ ⟨⟩ ht
    by_contra hne
    exact h ⟨ht,hne⟩

lemma requireType_eq_pure {v : Value} (h : v.Meets expected) (span : Span) : requireType v expected span = pure () := by
  cases expected with
  | none => rfl
  | some t => exact if_neg fun ⟨ht,hne⟩ => hne (h t rfl ht)

end Rules

lemma arraySizeError_like (hspan : L.span size.span size'.span) {e e' : SemanticError}
    (h : L.Error e e') : L.Error (arraySizeError size e) (arraySizeError size' e') := by
  obtain ⟨cause,span⟩ := e
  obtain ⟨cause',span'⟩ := e'
  obtain ⟨hcause,hat⟩ := h
  obtain rfl : cause' = cause := hcause
  cases cause' with
  | circularConstantDefinition | undeclaredIdentifier => exact ⟨rfl,hat⟩
  | _ => exact ⟨rfl,hspan⟩

lemma denoteName_agree {span span' : Span} (hspan : L.span span span') (name : String) (position : Position) :
    L.Agree Eq (denoteName name position span) (denoteName name position span') := by
  refine .andThen (.ofExcept ?_) fun t => .ite (.fail hspan) (.pure rfl)
  cases Ty.ofName name with
  | ok t => exact .ok rfl
  | error cause => exact .error ⟨rfl,hspan⟩

lemma settle_agree (h : d.Like L d') (b : BindingId) (v : Value) : L.RunAgree Eq (settle b d v) (settle b d' v) := by
  cases h with
  | mk => exact (Likeness.RunAgree.modifyReferent b _).andThen fun _ => .perform (.valued _ v)

section Trees

variable (scope : ScopeId)

mutual

/-- Constant expressions that are alike have the same values, of the type that is expected. -/
theorem Expr.Like.constant_agree (hconst : L.Constants constants constants') : ∀ {e e' : Expr}, e.Like L e' → ∀ expected,
      L.Agree (fun v v' => v = v' ∧ v.Meets expected) (e.constant constants scope expected)
        (e'.constant constants' scope expected)
  | ⟨id,span,form⟩, e', h, expected => by
    cases h with
    | node hspan hid h =>
      refine .andThen (.lift (.perform (.begun ..))) fun _ => ?_
      refine (form.constant_agree_of_like hconst h id hspan expected).andThen fun v => ?_
      refine (requireType_agree hspan v expected).bind fun _ _ hv => ?_
      exact .andThen (.lift (.perform (.typed hid v.type))) fun _ => .pure ⟨rfl,hv⟩
    | unwrapped hbare hspan hid h =>
      refine .begunAlone ?_ id expected
      rw [← bind_pure (e'.constant constants' scope expected)]
      refine (h.constant_agree hconst expected).bind ?_
      rintro v _ ⟨rfl,hv⟩
      rw [requireType_eq_pure hv, pure_bind]
      exact Likeness.Agree.recordAlone (m := pure v) (.pure ⟨rfl,hv⟩) hid Value.type

lemma ExprForm.constant_agree_of_like (hconst : L.Constants constants constants') (form : ExprForm) {form' : ExprForm}
    (h : form.Like L form') (id : NodeId) {span span' : Span} (hspan : L.span span span') (expected : Option Ty) :
    L.Agree Eq (form.constant constants scope id span expected) (form'.constant constants' scope id span' expected) := by
  cases form with
  | int text =>
    cases h
    exact literalOfType_agree hspan text false expected
  | bool | char =>
    cases h
    exact .pure rfl
  | paren e =>
    cases h with
    | paren _ h => exact (h.constant_agree hconst expected).mono fun _ _ h => h.1
  | name name =>
    cases h
    exact constantName_agree hconst hspan scope id name
  | unary op e =>
    cases h with
    | negated hlit hlit' hid => exact constantNegation_literal_agree hlit hlit' hid hspan _ _
    | unary _ hlit h =>
      have hvalue := fun expected => (h.constant_agree hconst expected).mono fun _ _ h => h.1
      cases op with
      | neg => exact constantNegation_agree h (hlit rfl) hspan (hvalue expected)
      | not => exact constantComplement_agree hvalue
  | binary op l r =>
    cases h with
    | binary _ hl hr =>
      exact constantBinary_agree hl hr (fun expected => (hl.constant_agree hconst expected).mono fun _ _ h => h.1)
        (fun expected => (hr.constant_agree hconst expected).mono fun _ _ h => h.1) op hspan
  | _ =>
    cases h
    exact .fail hspan

end

/-! ## Sizes and written types -/

lemma arraySize_agree (hconst : L.Constants constants constants')
    (h : size.Like L size') : L.Agree Eq (arraySize constants scope size) (arraySize constants' scope size') := by
  unfold arraySize
  rw [h.isContextual_eq]
  refine .andThen (.tryCatch ((h.constant_agree scope hconst _).mono fun _ _ h => h.1) ?_) fun v => ?_
  · rintro _ _ (herror | _)
    · exact .throw (.error (arraySizeError_like h.span herror))
    · exact .blocked
  · cases v with
    | int n i => exact .ite (.fail h.span) (.ite (.fail h.span) (.pure rfl))
    | bool | char => exact .fail h.span

mutual

/-- Written types that are alike stand for the same type. -/
theorem TypeExpr.Like.denote_agree (hconst : L.Constants constants constants') :
    ∀ {t t' : TypeExpr}, t.Like L t' → ∀ position,
      L.Agree Eq (t.denote constants scope position) (t'.denote constants' scope position)
  | ⟨_,.named name⟩, _, .mk hspan (.named _), position => denoteName_agree hspan name position
  | ⟨_,.array _ _⟩, _, .mk _ (.array helement hsize), _ =>
    (helement.denote_agree hconst .value).andThen fun _ =>
      (arraySize_agree scope hconst hsize).andThen fun _ => .lift (.built _)
  | ⟨_,.reference mutable _⟩, _, .mk _ (.reference _ h), _ =>
    (h.denote_agree hconst .value).andThen fun _ => .lift (.built _)
  | ⟨_,.function _ none⟩, _, .mk _ (.function hparams .none), _ =>
    (denoteAll_agree hconst hparams).andThen fun _ => .lift (.built _)
  | ⟨_,.function _ (some _)⟩, _, .mk _ (.function hparams (.some hret)), _ =>
    (denoteAll_agree hconst hparams).andThen fun _ =>
      (hret.denote_agree hconst .result).andThen fun _ => .lift (.built _)

lemma denoteAll_agree (hconst : L.Constants constants constants') : ∀ {ts ts' : List TypeExpr},
    List.Forall₂ (TypeExpr.Like L) ts ts' → L.Agree Eq (denoteAll constants scope ts) (denoteAll constants' scope ts')
  | [], [], .nil => .pure rfl
  | _ :: _, _ :: _, .cons h hs =>
    (h.denote_agree hconst .value).andThen fun _ =>
      (denoteAll_agree hconst hs).andThen fun _ => .pure rfl

end

/-! ## The declarations of constants -/

lemma requiredType_agree (hconst : L.Constants constants constants') {t t' : Option TypeExpr} (h : Option.Rel (TypeExpr.Like L) t t') :
    L.Agree Eq (requiredType constants scope t) (requiredType constants' scope t') := by
  cases h with
  | none => exact .pure rfl
  | some h => exact (h.denote_agree scope hconst .value).andThen fun t => .ite (.pure rfl) (.fail h.span)

lemma evaluateDecl_agree (hconst : L.Constants constants constants')
    (h : d.Like L d') : L.Agree Eq (evaluateDecl constants scope d) (evaluateDecl constants' scope d') := by
  cases h with
  | mk _ _ _ htype hvalue =>
    exact (requiredType_agree scope hconst htype).andThen fun expected =>
      (hvalue.constant_agree scope hconst expected).mono fun _ _ h => h.1

end Trees

lemma evaluateFresh_agree (hconst : L.Constants constants constants') (b : BindingId) (scope : ScopeId) (h : d.Like L d') :
    L.Agree Eq (evaluateFresh constants b scope d) (evaluateFresh constants' b scope d') := by
  refine .andThen (.lift (.modifyReferent b _)) fun _ => .tryCatch ?_ ?_
  · exact (evaluateDecl_agree scope hconst h).andThen fun v =>
      .andThen (.lift (settle_agree h b v)) fun _ => .pure rfl
  · intro _ _ hstops
    exact .andThen (.lift (.perform hstops.event (Stop.isLocal_event _))) fun _ =>
      .andThen (.lift (.modifyReferent b _)) fun _ => .blocked

lemma evaluateWith_agree (hconst : L.Constants constants constants') :
    L.Constants (evaluateWith constants) (evaluateWith constants') := by
  intro b
  refine .get fun s s' hrel => ?_
  cases hx : s.scopes.bindings[b]? with
  | none =>
    rw [hrel.unbound hx]
    exact .blocked
  | some x =>
    obtain ⟨⟨name',scope',span',referent'⟩,hx',hlike⟩ := hrel.binding hx
    obtain ⟨name,scope,span,referent⟩ := x
    obtain rfl : scope' = scope := hlike.scope
    obtain rfl : referent' = referent := hlike.referent
    rw [hx']
    cases referent' with
    | const t stage =>
      cases stage with
      | done v => exact .pure rfl
      | inProgress | failed => exact .blocked
      | pending =>
        have hd := hrel.constants b
        generalize s.constants[b]? = d at hd ⊢
        generalize s'.constants[b]? = d' at hd ⊢
        cases hd with
        | some hd => exact evaluateFresh_agree hconst b scope' hd
        | none => exact .blocked
    | var | func => exact .blocked

lemma constantWithin_agree : ∀ n, L.Constants (constantWithin n) (constantWithin n)
  | 0 => fun _ => .blocked
  | n + 1 => evaluateWith_agree (constantWithin_agree n)

lemma constantValue_agree : L.Constants constantValue constantValue := by
  intro b
  refine .get fun s s' hrel => ?_
  rw [hrel.size_eq]
  exact constantWithin_agree _ b

lemma denoteHere_agree {t t' : TypeExpr} (h : t.Like L t') (position : Position) :
    L.Agree Eq (denoteHere t position) (denoteHere t' position) :=
  .andThen (.lift .currentScope) fun scope => h.denote_agree scope constantValue_agree position

end Opal
