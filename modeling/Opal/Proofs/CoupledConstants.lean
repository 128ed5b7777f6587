import Opal.Proofs.ConstantEvaluation
import Opal.Proofs.Couplings
import Opal.Proofs.Locations

/-!
# Constants in two runs

Two runs that evaluate the same constant expression or written type keep in step if they do so at the names in it, for any
coupling that the steps of an evaluation keep up.
-/

namespace Opal

open Coupling (InStep RunInStep)

variable {r r' value value' : Option Ty → Check Value} {t : Ty}

/-- The parts of a type are as required. Elements, targets and parameters have to be values. -/
def Ty.HasParts (result value : Ty → Prop) : Ty → Prop
  | .array element _ => value element
  | .reference _ target => value target
  | .function params ret => (∀ t ∈ params, value t) ∧ result ret
  | .error | .void | .bool | .char | .string | .int _ => True

lemma Ty.HasParts.mono {result value result' value' : Ty → Prop}
    (h : t.HasParts result value) (hresult : ∀ t, result t → result' t)
    (hvalue : ∀ t, value t → value' t) : t.HasParts result' value' := by
  cases t with
  | array | reference => exact hvalue _ h
  | function => exact ⟨fun t ht => hvalue t (h.1 t ht),hresult _ h.2⟩
  | _ => trivial

lemma Ty.hasParts_true (t : Ty) : t.HasParts (fun _ => True) fun _ => True := by
  cases t with
  | function => exact ⟨fun _ _ => trivial,trivial⟩
  | _ => trivial

/-- What an evaluation inside the size of an array stops with. -/
def Stop.inSize (size : Expr) : Stop → Stop
  | .error e => .error (arraySizeError size e)
  | .blocked => .blocked

/-- A coupling that the steps of evaluations keep up. -/
structure ConstantCoupling extends Coupling where
  /-- The scopes of the two runs stand for one place in the source. -/
  stands : World → ScopeId → ScopeId → Env → Prop
  /-- The nodes that may be examined, each in its place. -/
  site : Node → Env → Prop
  /-- The types that are known of expressions, and of values. -/
  result : World → Ty → Prop := fun _ _ => True
  value : World → Ty → Prop := fun _ _ => True
  uniform : toCoupling.Uniform := by infer_instance
  stands_mono : ∀ {w w' c c' Γ}, le w w' → stands w c c' Γ → stands w' c c' Γ
  result_mono : ∀ {w w' t}, le w w' → result w t → result w' t := by intros; trivial
  value_mono : ∀ {w w' t}, le w w' → value w t → value w' t := by intros; trivial
  result_of_value : ∀ {w t}, value w t → result w t := by intros; trivial
  value_of_result : ∀ {w t}, result w t → t ≠ .void → value w t := by intros; trivial
  basic : ∀ {w t}, t ∈ TypeRegistry.basic → t ≠ .error → result w t := by intros; trivial
  parts : ∀ {w t}, result w t → t.HasParts (result w) (value w) := by
    intros; exact Ty.hasParts_true _
  begun : ∀ {w} (id : NodeId) {expected : Option Ty}, (∀ t ∈ expected, result w t) →
    toCoupling.Permits w (.begun id expected) (.begun id expected)
  typed : ∀ {w} (id : NodeId) {t : Ty}, result w t → toCoupling.Permits w (.typed id t) (.typed id t)
  built : ∀ {w} {t : Ty}, t.HasParts (result w) (value w) → t ≠ .error → ∀ s s', rel w s s' →
    ∃ w', le w w' ∧ rel w' (s.step (.built t)) (s'.step (.built t)) ∧ result w' t
  inSize : ∀ {w} (size : Expr) {e e' : Stop} {s s' : State}, stopped w (e, s) (e', s') →
    stopped w (e.inSize size, s) (e'.inSize size, s')

namespace ConstantCoupling

attribute [instance] ConstantCoupling.uniform

variable {K : ConstantCoupling} {w w' : K.World} {c c' : ScopeId} {l l' : Env → List (Node × Env)}

/-- The nodes of a tree may be examined as seen from the scopes of the two runs. -/
def Sees (K : ConstantCoupling) (w : K.World) (c c' : ScopeId) (l : Env → List (Node × Env)) : Prop :=
  ∃ Γ, K.stands w c c' Γ ∧ ∀ x ∈ l Γ, K.site x.1 x.2

lemma Sees.mono (h : K.Sees w c c' l) (hle : K.le w w') : K.Sees w' c c' l := by
  obtain ⟨Γ,hstands,hsites⟩ := h
  exact ⟨Γ,K.stands_mono hle hstands,hsites⟩

lemma Sees.sub (h : K.Sees w c c' l) (hsub : ∀ Γ, l' Γ ⊆ l Γ := by simp) : K.Sees w c c' l' := by
  obtain ⟨Γ,hstands,hsites⟩ := h
  exact ⟨Γ,hstands,fun x hx => hsites x (hsub Γ hx)⟩

/-- The type is known where it is written. -/
def KnownAt (K : ConstantCoupling) (w : K.World) : Position → Ty → Prop
  | .value, t => K.value w t
  | .result, t => K.result w t

lemma KnownAt.of_value (h : K.value w t) : ∀ position, K.KnownAt w position t
  | .value => h
  | .result => K.result_of_value h

/-- Nothing is expected, or a type that is known. -/
def Expects (K : ConstantCoupling) (w : K.World) (expected : Option Ty) : Prop :=
  ∀ t ∈ expected, K.result w t

lemma Expects.none : K.Expects w none := nofun

lemma Expects.some (h : K.result w t) : K.Expects w (some t) := by
  rintro _ ⟨⟩
  exact h

lemma Expects.mono {expected : Option Ty} (h : K.Expects w expected) (hle : K.le w w') : K.Expects w' expected :=
  fun t ht => K.result_mono hle (h t ht)

lemma value_type (K : ConstantCoupling) (w : K.World) (v : Value) : K.value w v.type := by
  refine K.value_of_result (K.basic ?_ ?_) ?_
  · cases v with
    | int n i => cases i <;> simp [TypeRegistry.basic, Value.type]
    | bool | char => simp [TypeRegistry.basic, Value.type]
  · cases v <;> simp [Value.type]
  · cases v <;> simp [Value.type]

lemma value_int (K : ConstantCoupling) (w : K.World) (i : IntTy) : K.value w (.int i) :=
  K.value_type w (.int 0 i)

lemma value_bool (K : ConstantCoupling) (w : K.World) : K.value w .bool :=
  K.value_type w (.bool true)

lemma result_void (K : ConstantCoupling) (w : K.World) : K.result w .void :=
  K.basic (by simp [TypeRegistry.basic]) nofun

/-- The two evaluations keep in step from now on, whatever known type is expected. -/
def Evaluates (K : ConstantCoupling) (w : K.World) (value value' : Option Ty → Check Value) : Prop :=
  ∀ w1, K.le w w1 → ∀ expected, K.Expects w1 expected → K.InStep w1 (value expected) (value' expected) fun _ v v' => v = v'

/-- The evaluation of every name that may be examined keeps in step. -/
def Names (K : ConstantCoupling) (constants constants' : Constants) : Prop :=
  ∀ {w : K.World} {c c' : ScopeId} {id : NodeId} {span : Span} {name : String},
    K.Sees w c c' (Expr.located ⟨id,span,.name name⟩) →
      K.InStep w (constantName constants c id name span) (constantName constants' c' id name span) fun _ v v' => v = v'

end ConstantCoupling

/-- What corresponding names are bound to is of one kind. A constant is in progress in both runs or in none. -/
inductive Referent.Akin : Referent → Referent → Prop where
  | var (type type' : Option Ty) (mutable mutable' : Bool) (stage stage' : VarStage) :
    Akin (.var type mutable stage) (.var type' mutable' stage')
  | const (type type' : Option Ty) {stage stage' : ConstStage}
    (h : stage = .inProgress ↔ stage' = .inProgress) : Akin (.const type stage) (.const type' stage')
  | func (t t' : Ty) (params params' : List Formal) : Akin (.func t params) (.func t' params')

/-- A coupling in which names that may be examined refer to corresponding bindings. -/
structure NameCoupling extends ConstantCoupling where
  /-- The bindings of the two runs correspond. -/
  binding : World → BindingId → BindingId → Prop
  find : ∀ {w c c'} {id : NodeId} {span : Span} {name : String},
    toConstantCoupling.Sees w c c' (Expr.located ⟨id,span,.name name⟩) →
      toCoupling.InStep w (findFrom c id name span) (findFrom c' id name span) binding
  referent : ∀ {w b b' s s'}, binding w b b' → rel w s s' → ∃ r r', s.referent? b = some r ∧ s'.referent? b' = some r' ∧ r.Akin r'

/-! ## The rules of constant expressions -/

section Rules

variable {K : ConstantCoupling} {w : K.World} {expected : Option Ty} {l l' : Option Ty → Check Value}

section

variable (hparts : t.HasParts (K.result w) (K.value w)) (herror : t ≠ .error) (hvoid : t ≠ .void)
include hparts herror hvoid

lemma built_eq_inStep : K.InStep w (liftM (built t)) (liftM (built t)) fun w' u u' => u = t ∧ u' = t ∧ K.value w' t := by
  intro s s' hrel
  obtain ⟨w',hle,hrel',ht⟩ := K.built hparts herror s s' hrel
  exact .result hle hrel' ⟨rfl,rfl,K.value_of_result ht hvoid⟩

lemma built_inStep (position : Position) : K.Same w (liftM (built t)) fun w' t => K.KnownAt w' position t := by
  refine (built_eq_inStep hparts herror hvoid).mono ?_
  rintro w' _ _ - ⟨rfl,rfl,ht⟩
  exact ⟨rfl,.of_value ht position⟩

end

lemma literalOfType_inStep (text : String) (negative : Bool) (span : Span) (expected : Option Ty) :
    K.InStep w (literalOfType text negative expected span)
      (literalOfType text negative expected span) fun _ v v' => v = v' := by
  unfold literalOfType
  cases expected with
  | none => exact .fail _ _
  | some t =>
    cases t with
    | error => exact .blocked
    | int i =>
      cases literalValue? text with
      | none => exact .fail _ _
      | some n => exact .ite (fun _ => .pure rfl) fun _ => .fail _ _
    | _ => exact .mismatch _ _ _

lemma negateValue_inStep (v : Value) (operandSpan span : Span) :
    K.InStep w (negateValue v operandSpan span) (negateValue v operandSpan span) fun _ v v' => v = v' := by
  cases v with
  | int n i =>
    exact .ite (fun _ => .ite (fun _ => .pure rfl) fun _ => .fail _ _) fun _ => .mismatch _ _ _
  | bool | char => exact .mismatch _ _ _

lemma constantNegation_inStep (h : K.Evaluates w value value') (hexp : K.Expects w expected) (operand : Expr) (span : Span) :
    K.InStep w (constantNegation operand value span expected)
      (constantNegation operand value' span expected) fun _ v v' => v = v' := by
  unfold constantNegation
  cases operand.literal? with
  | some text =>
    refine (literalOfType_inStep text true span expected).bind ?_
    rintro w1 v _ - rfl
    exact .perform (K.typed _ (K.result_of_value (K.value_type w1 v))) fun _ _ => .pure rfl
  | none =>
    refine (h w (K.le_refl w) expected hexp).bind ?_
    rintro w1 v _ - rfl
    exact negateValue_inStep v _ _

lemma constantComplement_inStep (h : K.Evaluates w value value') :
    K.InStep w (constantComplement value) (constantComplement value') fun _ v v' => v = v' := by
  refine (h w (K.le_refl w) _ (.some (K.result_of_value (K.value_bool w)))).bind ?_
  rintro w1 v _ - rfl
  cases v with
  | bool => exact .pure rfl
  | int | char => exact .blocked

lemma ConstantCoupling.Expects.firstExpected (h : K.Expects w expected) (op : BinaryOp) :
    K.Expects w (op.firstExpected expected) := by
  unfold BinaryOp.firstExpected
  split
  · exact h
  split
  · exact .some (K.result_of_value (K.value_bool w))
  · exact .none

lemma constantOperands_inStep (hl : K.Evaluates w l l')
    (hr : K.Evaluates w r r') (hexp : K.Expects w expected) (op : BinaryOp) (left right : Expr) :
    K.InStep w (constantOperands op left right l r expected)
      (constantOperands op left right l' r' expected) fun _ v v' => v = v' := by
  have hfirst := hexp.firstExpected op
  have hknown (w1 : K.World) (v : Value) : K.Expects w1 (some v.type) :=
    .some (K.result_of_value (K.value_type w1 v))
  refine .ite (fun _ => ?_) fun _ => ?_
  · refine (hr w (K.le_refl w) _ hfirst).bind ?_
    rintro w1 v _ hle rfl
    exact (hl w1 hle _ (hknown w1 v)).thenPure fun _ _ _ _ h => h ▸ rfl
  · refine (hl w (K.le_refl w) _ hfirst).bind ?_
    rintro w1 v _ hle rfl
    exact (hr w1 hle _ (hknown w1 v)).thenPure fun _ _ _ _ h => h ▸ rfl

lemma constantBinary_inStep (hl : K.Evaluates w l l')
    (hr : K.Evaluates w r r') (hexp : K.Expects w expected) (op : BinaryOp) (left right : Expr) (span : Span) :
    K.InStep w (constantBinary op left right l r span expected)
      (constantBinary op left right l' r' span expected) fun _ v v' => v = v' := by
  refine (constantOperands_inStep hl hr hexp op left right).bind ?_
  rintro w1 ⟨vl,vr⟩ _ - rfl
  exact .ite (fun _ => .ofExcept fun _ _ => rfl) fun _ => .mismatch _ _ _

lemma requireType_inStep (v : Value) (expected : Option Ty) (span : Span) :
    K.Follows w (requireType v expected span) (requireType v expected span) := by
  cases expected with
  | none => exact .pure trivial
  | some t => exact .ite (fun _ => .mismatch _ _ _) fun _ => .pure trivial

end Rules

/-- The names of constants keep in step if the constants do. -/
theorem constantName_inStep {K : NameCoupling} {constants constants' : Constants}
    (hconst : ∀ {w b b' s s' type stage}, K.binding w b b' → K.rel w s s' →
      s.referent? b = some (.const type stage) → stage ≠ .inProgress →
        K.Ends w (fun _ v v' => v = v') ((constants b).run s) ((constants' b').run s')) : K.Names constants constants' := by
  intro w c c' id span name hsees
  refine (K.find hsees).bind fun w1 b b' _ hb => ?_
  refine .read fun s s' hrel => ?_
  obtain ⟨r,r',hr,hr',hakin⟩ := K.referent hb hrel
  refine ⟨r,r',run_referentOf hr,run_referentOf hr',?_⟩
  cases hakin with
  | var | func => exact InStep.fail _ _ s s' hrel
  | @const type type' stage stage' hstage =>
    by_cases h : stage = .inProgress
    · obtain rfl := h
      obtain rfl := hstage.1 rfl
      exact InStep.fail _ _ s s' hrel
    · have h' : stage' ≠ .inProgress := fun h' => h (hstage.2 h')
      have hends := hconst hb hrel hr h
      cases stage with
      | inProgress => exact absurd rfl h
      | pending | done | failed =>
        cases stage' with
        | inProgress => exact absurd rfl h'
        | pending | done | failed => exact hends

section Trees

variable {K : ConstantCoupling} {constants constants' : Constants} {c c' : ScopeId}

/-- Two constant expressions that are the same tree are evaluated in step. -/
theorem Expr.constant_inStep (hnames : K.Names constants constants') (e : Expr) {w : K.World} (hsees : K.Sees w c c' e.located) :
    K.Evaluates w (fun x => e.constant constants c x) fun x => e.constant constants' c' x := by
  obtain ⟨id,span,form⟩ := e
  intro w1 hle expected hexp
  refine .perform (K.begun id hexp) fun w2 hle2 => ?_
  replace hsees := hsees.mono (K.le_trans hle hle2)
  replace hexp := hexp.mono hle2
  suffices hform : K.InStep w2 (form.constant constants c id span expected) (form.constant constants' c' id span expected)
      fun _ v v' => v = v' by
    refine hform.bind ?_
    rintro w3 v _ - rfl
    refine (requireType_inStep v expected span).bind fun w4 _ _ _ _ => ?_
    exact .perform (K.typed _ (K.result_of_value (K.value_type w4 v))) fun _ _ => .pure rfl
  cases form with
  | int text => exact literalOfType_inStep text false span expected
  | bool | char => exact .pure rfl
  | paren e => exact e.constant_inStep hnames hsees.sub w2 (K.le_refl w2) expected hexp
  | name => exact hnames hsees
  | unary op e =>
    have he := e.constant_inStep hnames hsees.sub
    cases op with
    | neg => exact constantNegation_inStep he hexp e span
    | not => exact constantComplement_inStep he
  | binary op l r =>
    exact constantBinary_inStep (l.constant_inStep hnames hsees.sub) (r.constant_inStep hnames hsees.sub) hexp op l r span
  | _ => exact .fail _ _

lemma arraySize_inStep (hnames : K.Names constants constants') (size : Expr) {w : K.World}
    (hsees : K.Sees w c c' size.located) : K.InStep w (arraySize constants c size) (arraySize constants' c' size)
      fun _ n n' => n = n' := by
  have hexp : K.Expects w (if size.isContextual then some (.int .u32) else none) := by
    split
    · exact .some (K.result_of_value (K.value_int w .u32))
    · exact .none
  refine InStep.bind (InStep.rethrow (f := Stop.inSize size) (size.constant_inStep hnames hsees w (K.le_refl w) _ hexp)
    (fun _ _ _ _ => K.inSize size) ?_ ?_) ?_
  · rintro (e | _) <;> rfl
  · rintro (e | _) <;> rfl
  rintro w1 v _ - rfl
  cases v with
  | int n i => exact .ite (fun _ => .fail _ _) fun _ => .ite (fun _ => .fail _ _) fun _ => .pure rfl
  | bool | char => exact .fail _ _

end Trees

/-! ## Written types -/

lemma denoteName_inStep {K : ConstantCoupling} {w : K.World} (name : String) (position : Position) (span : Span) :
    K.Same w (denoteName name position span) fun w' t => K.KnownAt w' position t := by
  unfold denoteName
  refine InStep.bind (P := fun _ t t' => t = t' ∧ Ty.ofName name = .ok t) (.ofExcept fun t ht => ?_) ?_
  · refine ⟨rfl,?_⟩
    cases hname : Ty.ofName name with
    | ok u => rw [hname] at ht; exact congrArg _ (Except.ok.inj ht)
    | error e => rw [hname] at ht; cases ht
  rintro w1 t _ - ⟨rfl,ht⟩
  have hresult : K.result w1 t := by
    unfold Ty.ofName at ht
    split at ht
    · next u hu =>
      obtain rfl := Except.ok.inj ht
      obtain ⟨l1,l2,hlist,-⟩ := List.lookup_eq_some_iff.1 hu
      have hmem : (name, u) ∈ Ty.byName := by rw [hlist]; simp
      refine K.basic ?_ ?_
      · revert hmem
        simp only [Ty.byName, TypeRegistry.basic]
        aesop
      · rintro rfl
        simp [Ty.byName] at hmem
    · split at ht
      · cases ht
      split at ht <;> cases ht
  refine .ite (fun _ => .fail _ _) fun hvoid => .pure ⟨rfl,?_⟩
  cases position with
  | result => exact hresult
  | value => exact K.value_of_result hresult fun ht => hvoid ⟨ht,rfl⟩

section Types

variable {K : ConstantCoupling} {constants constants' : Constants} {c c' : ScopeId}

mutual

/-- A written type stands for the same type in both runs. -/
theorem TypeExpr.denote_inStep (hnames : K.Names constants constants') (t : TypeExpr) (position : Position) {w : K.World}
    (hsees : K.Sees w c c' t.located) : K.InStep w (t.denote constants c position) (t.denote constants' c' position)
      fun w' t t' => t = t' ∧ K.KnownAt w' position t := by
  obtain ⟨span,form⟩ := t
  replace hsees : K.Sees w c c' form.located := hsees.sub
  cases form with
  | named name => exact denoteName_inStep name position span
  | array element size =>
    refine (element.denote_inStep hnames .value hsees.sub).bind ?_
    rintro w1 t _ hle ⟨rfl,ht⟩
    refine (arraySize_inStep hnames size (hsees.mono hle).sub).bind ?_
    rintro w2 n _ hle2 rfl
    exact built_inStep (t := .array t n) (K.value_mono hle2 ht) (by simp) (by simp) position
  | reference mutable target =>
    refine (target.denote_inStep hnames .value hsees.sub).bind ?_
    rintro w1 t _ - ⟨rfl,ht⟩
    exact built_inStep (t := .reference mutable t) ht (by simp) (by simp) position
  | function params ret =>
    have hparams := denoteAll_inStep hnames params (hsees.sub : K.Sees w c c' (locatedTypes params))
    cases ret with
    | none =>
      refine hparams.bind ?_
      rintro w1 ts _ - ⟨rfl,hts⟩
      exact built_inStep (t := .function ts .void) ⟨hts,K.result_void w1⟩ (by simp) (by simp) position
    | some ret =>
      refine hparams.bind ?_
      rintro w1 ts _ hle ⟨rfl,hts⟩
      refine (ret.denote_inStep hnames .result (hsees.mono hle).sub).bind ?_
      rintro w2 t _ hle2 ⟨rfl,ht⟩
      exact built_inStep (t := .function ts t) ⟨fun u hu => K.value_mono hle2 (hts u hu),ht⟩ (by simp) (by simp) position

lemma denoteAll_inStep (hnames : K.Names constants constants') : ∀ (ts : List TypeExpr) {w : K.World},
    K.Sees w c c' (locatedTypes ts) → K.InStep w (denoteAll constants c ts) (denoteAll constants' c' ts) fun w' ts ts' => ts = ts' ∧ ∀ t ∈ ts, K.value w' t
  | [], w, _ => .pure ⟨rfl,by simp⟩
  | t :: ts, w, hsees => by
    refine (t.denote_inStep hnames .value hsees.sub).bind ?_
    rintro w1 u _ hle ⟨rfl,hu⟩
    refine (denoteAll_inStep hnames ts (hsees.mono hle).sub).thenPure ?_
    rintro w2 us _ hle2 ⟨rfl,hus⟩
    exact ⟨rfl,List.forall_mem_cons.2 ⟨K.value_mono hle2 hu,hus⟩⟩

end

section

variable {w : K.World}

lemma requiredType_inStep (hnames : K.Names constants constants') (type : Option TypeExpr)
    (hsees : K.Sees w c c' (locatedOptionalType type)) :
    K.InStep w (requiredType constants c type) (requiredType constants' c' type) fun w' t t' => t = t' ∧ K.Expects w' t := by
  cases type with
  | none => exact .pure ⟨rfl,.none⟩
  | some t =>
    refine (t.denote_inStep hnames .value hsees.sub).bind ?_
    rintro w1 u _ - ⟨rfl,hu⟩
    exact .ite (fun _ => .pure ⟨rfl,.some (K.result_of_value hu)⟩) fun _ => .fail _ _

lemma evaluateDecl_inStep (hnames : K.Names constants constants') (d : ConstDecl)
    (hsees : K.Sees w c c' d.located) : K.InStep w (evaluateDecl constants c d) (evaluateDecl constants' c' d)
      fun _ v v' => v = v' := by
  obtain ⟨id,name,nameSpan,type,value,span⟩ := d
  refine (requiredType_inStep hnames type hsees.sub).bind ?_
  rintro w1 expected _ hle ⟨rfl,hexp⟩
  exact value.constant_inStep hnames (hsees.mono hle).sub w1 (K.le_refl w1) expected hexp

/-- The evaluation of a constant keeps in step if noting its outcome does. -/
theorem evaluateFresh_ends (hnames : K.Names constants constants') {d : ConstDecl} {b b' : BindingId} {s s' : State}
    (hsees : K.Sees w c c' d.located) (hstrict : ¬ K.lax)
    (hstops : ∀ {w e e' s s'}, K.stopped w (e, s) (e', s') → e = e' ∧ ∃ w', K.le w w' ∧ K.rel w' s s')
    (hstop : ∀ w (stop : Stop), K.Permits w stop.event stop.event)
    (hsettle : ∀ w1 v, K.le w w1 → K.RunFollows w1 (settle b d v) (settle b' d v))
    (habandon : ∀ w1, K.le w w1 → K.RunFollows w1 (abandon b) (abandon b'))
    (hbegun : K.rel w (s.begun b) (s'.begun b')) : K.Ends w (fun _ v v' => v = v') ((evaluateFresh constants b c d).run s)
      ((evaluateFresh constants' b' c' d).run s') := by
  unfold evaluateFresh
  rw [Check.run_bind, Check.run_bind]
  refine InStep.handled hstrict ?_ ?_ (s.begun b) (s'.begun b') hbegun
  · refine (evaluateDecl_inStep hnames d hsees).bind ?_
    rintro w1 v _ hle rfl
    exact InStep.bind (.lift (hsettle w1 v hle)) fun _ _ _ _ _ => .pure rfl
  · intro e e' s1 s1' hstopped
    obtain ⟨rfl,w1,hle,hrel⟩ := hstops hstopped
    have hrest (w2) (hle2 : K.le w1 w2) : K.InStep w2 (do liftM (abandon b); Check.blocked) (do liftM (abandon b'); Check.blocked)
          fun _ (v v' : Value) => v = v' :=
      InStep.bind (.lift (habandon w2 (K.le_trans hle hle2))) fun _ _ _ _ _ => .blocked
    exact (InStep.perform (hstop w1 e) hrest s1 s1' hrel).mono hle fun _ _ _ _ h => h

end

end Types

end Opal
