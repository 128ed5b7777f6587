import Opal.Proofs.Charges

/-!
# The charges of constants

Constant expressions are free of charge, apart from the constants they name. What goes wrong in the declaration of a constant is
charged to it, wherever its value is needed.
-/

namespace Opal

variable {region span : Span} {op : BinaryOp} {d : ConstDecl} {size : Expr} {cause : SemanticCause} {e : SemanticError}
    {name : String} {t : TypeExpr}

/-! ## Names -/

section Names

variable {P : SemanticError → Prop} {N : List NodeId} {S : Multiset Site}

lemma referentOf_charged (b : BindingId) : Charged P N S (referentOf b) := by
  refine .get fun s => ?_
  split
  · exact .pure _
  · exact .blocked

lemma findFrom_charged (hspan : span.Within region) (scope : ScopeId) (id : NodeId) (name : String) :
    Charged (Faults region) [] 0 (findFrom scope id name span) := by
  refine .get fun s => .after (.ofExcept fun e he => ?_) fun b => .after (.lift (.perform rfl)) fun _ => .pure b
  unfold ScopeTree.lookup at he
  split at he
  · cases he
  · cases he
    exact .of_cause hspan rfl

/-- A name is refused where it is written. -/
theorem ScopeTree.faults_of_vet {t : ScopeTree} {scope : ScopeId} (h : t.vet scope name span = .error e) : Faults span e := by
  unfold ScopeTree.vet at h
  split at h
  · cases h
    exact .of_cause (.refl span) rfl
  · split at h
    · cases h
      exact .of_cause (.refl span) rfl
    · cases h

lemma declareIn_charged {referent : Referent} (hreferent : referent.isPending = false) (hspan : span.Within region)
    (scope : ScopeId) (name : String) : Charged (Faults region) [] 0 (declareIn scope name span referent) := by
  refine .get fun s => .after (.ofExcept fun e he => (ScopeTree.faults_of_vet he).mono hspan) fun _ => ?_
  exact .after (.lift fun s _ => .bound s _ hreferent) fun _ => .pure _

end Names

/-! ## Constant expressions -/

lemma Expr.span_within {e : Expr} (h : PlacedIn region e.readings) : e.span.Within region := by
  cases e
  exact h.within

lemma TypeExpr.span_within (h : PlacedIn region t.readings) : t.span.Within region := by
  cases t
  exact h.within

section Rules

variable {N : List NodeId} {S : Multiset Site}

lemma literalOfType_charged (hspan : span.Within region) (text : String) (negative : Bool) (expected : Option Ty) :
    Charged (Faults region) N S (literalOfType text negative expected span) := by
  unfold literalOfType
  dsimp only
  split
  · exact .fault hspan rfl
  · exact .blocked
  · split
    · exact .fault hspan rfl
    · exact .ite (.pure _) (.fault hspan rfl)
  · exact .mismatch hspan (Ty.display_ne_sortWord _ (by decide))

lemma negateValue_charged {operandSpan : Span} (hoperand : operandSpan.Within region) (hspan : span.Within region)
    (v : Value) : Charged (Faults region) N S (negateValue v operandSpan span) := by
  have hsigned : "signed integer" ≠ v.type.display := (v.type.display_ne_sortWord (by decide)).symm
  unfold negateValue
  split
  · exact .ite (.ite (.pure _) (.fault hspan rfl)) (.mismatch hoperand hsigned)
  · exact .mismatch hoperand hsigned

lemma requireType_charged (hspan : span.Within region) (v : Value) (expected : Option Ty) :
    Charged (Faults region) N S (requireType v expected span) := by
  unfold requireType
  split
  · exact .pure _
  · split
    · next h => exact .mismatch hspan fun heq => h.2 (Ty.display_injective heq).symm
    · exact .pure _

lemma Value.isMismatch_of_binary {v w : Value} (h : v.binary op w = .error cause) : cause.isMismatch = false := by
  have hrange (n : Option Int) (i : IntTy) (hn : inRange n i = .error cause) : cause.isMismatch = false := by
    unfold inRange at hn
    split at hn
    · split at hn <;> cases hn
      rfl
    · cases hn
      rfl
  unfold Value.binary at h
  split at h
  · unfold binaryInt at h
    split at h
    case h_4 | h_5 =>
      split at h
      · cases h
        rfl
      · exact hrange _ _ h
    case h_1 | h_2 | h_3 => exact hrange _ _ h
    all_goals cases h
    all_goals rfl
  all_goals cases h
  rfl

lemma BinaryOp.ne_display_of_accepts {t : Ty} (h : op.accepts t = false) :
    (if op.isLogical then "bool" else "integer") ≠ t.display := by
  split
  · next hlogical =>
    intro heq
    obtain rfl : Ty.bool = t := Ty.display_injective heq
    cases op <;> simp [BinaryOp.isLogical, BinaryOp.accepts, BinaryOp.isArithmetic, BinaryOp.isOrdering] at h hlogical
  · exact (t.display_ne_sortWord (by decide)).symm

end Rules

lemma faults_arraySizeError (hsize : size.span.Within region) (he : Faults region e) :
    Faults region (arraySizeError size e) := by
  unfold arraySizeError
  split
  · exact he
  · exact he
  · exact .of_cause hsize rfl

lemma Ty.isMismatch_of_ofName (h : Ty.ofName name = .error cause) : cause.isMismatch = false := by
  unfold Ty.ofName at h
  split at h
  · cases h
  · split at h
    · cases h
      rfl
    · split at h <;> cases h <;> rfl

lemma denoteName_charged (hspan : span.Within region) (name : String) (position : Position) :
    Charged (Faults region) [] 0 (denoteName name position span) := by
  refine .after (.ofExcept fun e he => ?_) fun t => .ite (.fault hspan rfl) (.pure t)
  cases hname : Ty.ofName name with
  | ok t => rw [hname] at he; cases he
  | error cause =>
    rw [hname] at he
    cases he
    exact .of_cause hspan (Ty.isMismatch_of_ofName hname)

/-- What goes wrong with a constant is charged to its own declaration, so a use of it pays for nothing. -/
def Constants.Free (constants : Constants) : Prop :=
  ∀ b, Charged (fun _ => False) [] 0 (constants b)

section Evaluation

variable {constants : Constants} (scope : ScopeId)

lemma constantName_charged (hconstants : constants.Free) (hspan : span.Within region) (id : NodeId) (name : String) :
    Charged (Faults region) [] 0 (constantName constants scope id name span) := by
  refine .after (findFrom_charged hspan scope id name) fun b => .after (referentOf_charged b) fun r => ?_
  split
  · exact .fault hspan rfl
  · exact (hconstants b).of_never
  · exact .fault hspan rfl

/-- The value of an expression costs nothing: no error inside of it is reported on the way. -/
theorem Expr.constant_charged (hconstants : constants.Free) (e : Expr) (h : PlacedIn region e.readings) (expected : Option Ty) :
    Charged (Faults region) [] 0 (e.constant constants scope expected) := by
  obtain ⟨id,span,form⟩ := e
  have hspan := h.within
  have h := h.covered
  suffices hform : Charged (Faults region) [] 0 (form.constant constants scope id span expected) by
    refine .after (.lift (.perform rfl)) fun _ => .after hform fun v => ?_
    refine .after (requireType_charged hspan v expected) fun _ => ?_
    exact .after (.lift (.recordType id v.type)) fun _ => .pure v
  cases form with
  | int text => exact literalOfType_charged hspan text false expected
  | bool | char => exact .pure _
  | paren e => exact e.constant_charged hconstants h.right.left expected
  | name name => exact constantName_charged scope hconstants hspan id name
  | unary op e =>
    have he := e.constant_charged hconstants h.right
    cases op with
    | neg =>
      rw [ExprForm.constant]
      unfold constantNegation
      split
      · exact .after (literalOfType_charged hspan _ true expected) fun v => .after (.lift (.recordType _ _)) fun _ => .pure v
      · exact .after (he expected) fun v => negateValue_charged (e.span_within h.right) hspan v
    | not =>
      refine .after (he _) fun v => ?_
      split
      · exact .pure _
      · exact .blocked
  | binary op l r =>
    have hl := l.constant_charged hconstants h.left
    have hr := r.constant_charged hconstants h.right.right
    have hoperands : Charged (Faults region) [] 0 (constantOperands op l r (fun x => l.constant constants scope x)
        (fun x => r.constant constants scope x) expected) := by
      refine .ite ?_ ?_
      · exact .after (hr _) fun vr => .after (hl _) fun vl => .pure (vl, vr)
      · exact .after (hl _) fun vl => .after (hr _) fun vr => .pure (vl, vr)
    refine .after hoperands fun x => ?_
    obtain ⟨vl,vr⟩ := x
    dsimp only
    split
    · refine .ofExcept fun e he => ?_
      cases hv : vl.binary op vr with
      | ok v => rw [hv] at he; cases he
      | error cause =>
        rw [hv] at he
        cases he
        exact .of_cause hspan (Value.isMismatch_of_binary hv)
    · next haccepts => exact .mismatch (l.span_within h.left) (BinaryOp.ne_display_of_accepts (by simpa using haccepts))
  | _ => exact .fault hspan rfl

/-! ## Written types -/

lemma arraySize_charged (hconstants : constants.Free)
    (h : PlacedIn region size.readings) : Charged (Faults region) [] 0 (arraySize constants scope size) := by
  have hsize := size.span_within h
  refine .after (.handled (size.constant_charged scope hconstants h _) fun stop hstop => ?_) fun v => ?_
  · cases stop with
    | error e =>
      refine .throw fun e' he' => ?_
      cases he'
      exact faults_arraySizeError hsize (hstop e rfl)
    | blocked => exact .blocked
  · cases v with
    | int => exact .ite (.fault hsize rfl) (.ite (.fault hsize rfl) (.pure _))
    | bool | char => exact .fault hsize rfl

mutual

/-- Nor does the type that a written type stands for. -/
theorem TypeExpr.denote_charged (hconstants : constants.Free) (t : TypeExpr) (h : PlacedIn region t.readings)
    (position : Position) : Charged (Faults region) [] 0 (t.denote constants scope position) := by
  obtain ⟨span,form⟩ := t
  have hspan := h.within
  have h := h.covered
  cases form with
  | named name => exact denoteName_charged hspan name position
  | array element size =>
    refine .after (element.denote_charged hconstants h.right.left .value) fun t => ?_
    exact .after (arraySize_charged scope hconstants h.right.right.right.left) fun n => .lift (.built _)
  | reference _ target => exact .after (target.denote_charged hconstants h.right.right .value) fun t => .lift (.built _)
  | function params ret =>
    rw [TypeForm.readings, typeReadings_eq_map] at h
    have hparams := denoteAll_charged hconstants params fun t ht => h.right.left.inParens (List.mem_map_of_mem ht)
    cases ret with
    | none => exact .after hparams fun ts => .lift (.built _)
    | some ret =>
      rw [readingsAfter] at h
      refine .after hparams fun ts => ?_
      exact .after (ret.denote_charged hconstants h.right.right.right .result) fun t => .lift (.built _)

lemma denoteAll_charged (hconstants : constants.Free) :
    ∀ ts : List TypeExpr, (∀ t ∈ ts, PlacedIn region t.readings) → Charged (Faults region) [] 0 (denoteAll constants scope ts)
  | [], _ => .pure []
  | t :: ts, h => by
    refine .after (t.denote_charged hconstants (h t List.mem_cons_self) .value) fun type => ?_
    exact .after (denoteAll_charged hconstants ts fun t' ht' => h t' (List.mem_cons_of_mem _ ht')) fun _ => .pure _

end

/-! ## Named constants -/

/-- What goes wrong with a constant concerns a part of its declaration. -/
theorem evaluateDecl_charged (hconstants : constants.Free) (h : PlacedIn d.span d.readings) :
    Charged (Faults d.span) [] 0 (evaluateDecl constants scope d) := by
  cases d with | mk id name nameSpan type value span
  have htype := h.covered.right.right.left
  refine .after ?_ fun expected => value.constant_charged scope hconstants h.covered.right.right.right.right.left expected
  cases type with
  | none => exact .pure none
  | some written =>
    refine .after (written.denote_charged scope hconstants htype.right .value) fun t => ?_
    exact .ite (.pure _) (.fault (written.span_within htype.right) rfl)

lemma evaluateFresh_charged (hconstants : constants.Free) {s : State} {b : BindingId} (hs : Prepared [] s)
    (hb : s.isPending b = true) (hd : s.constants[b]? = some d) : Charges [] 0 s ((evaluateFresh constants b scope d).run s).2 ∧
      ∀ e, ((evaluateFresh constants b scope d).run s).1 ≠ .error (.error e) := by
  have hvalue : Charged (Faults d.span) [] 0 (do
      let v ← evaluateDecl constants scope d
      settle b d v
      return v) := by
    refine .after (evaluateDecl_charged scope hconstants (hs.placed b d hd)) fun v => .after (.lift ?_) fun _ => .pure v
    refine .after (.modifyReferent b fun r hr => ?_) fun _ => .perform rfl
    cases r <;> simp [Referent.setConstType, Referent.setConstStage, Referent.isPending] at hr
  have habandon : Charged (fun _ => False) [] 0 (do abandon b; Check.blocked : Check Value) := by
    refine .after (.lift (.modifyReferent b fun r hr => ?_)) fun _ => .blocked
    cases r <;> simp [Referent.setConstType, Referent.setConstStage, Referent.isPending] at hr
  have hbegun (m : Check Value) (hm : Charged (fun _ => False) [] (0 + {.decl (.const d)}) m) :
      Charges [] 0 s ((do modifyReferent b (·.setConstStage .inProgress); m : Check Value).run s).2 ∧
        ∀ e, ((do modifyReferent b (·.setConstStage .inProgress); m : Check Value).run s).1 ≠ .error (.error e) := by
    obtain ⟨hcharges,hstop⟩ := hm (s.marked b (·.setConstStage .inProgress)) ⟨hs.nodup,hs.fresh,hs.placed⟩
    exact ⟨.evaluation hb hd hcharges,hstop⟩
  refine hbegun _ (hvalue.tryCatch fun stop hstop => ?_)
  cases stop with
  | error e =>
    refine .followed (.lift fun s _ => ?_) fun _ => habandon
    exact .report s ((hstop e rfl).admits (.refl d.span))
  | blocked => exact .followed (.lift (.mono (.perform rfl) (.refl _) (Multiset.zero_le _))) fun _ => habandon

lemma evaluateWith_charged (hconstants : constants.Free) (b : BindingId) : Charged (fun _ => False) [] 0 (evaluateWith constants b) := by
  intro s hs
  unfold evaluateWith
  rw [Check.run_bind, Check.run_get]
  dsimp only
  split
  · next scope _ _ stage hbinding =>
    split
    · exact Charged.pure _ s hs
    · split
      · next d hd => exact evaluateFresh_charged scope hconstants hs (by rw [State.isPending, hbinding]; rfl) hd
      · exact Charged.blocked s hs
    · exact Charged.blocked s hs
  · exact Charged.blocked s hs

end Evaluation

lemma constantWithin_charged : ∀ n : Nat, Constants.Free (constantWithin n)
  | 0, _ => .blocked
  | n + 1, b => evaluateWith_charged (constantWithin_charged n) b

/-- A computation that needs the value of a constant pays for nothing: it only learns that there is none. -/
theorem constantValue_charged : Constants.Free constantValue :=
  fun b => .get fun _ => constantWithin_charged _ b

lemma denoteHere_charged (h : PlacedIn region t.readings) (position : Position) :
    Charged (Faults region) [] 0 (denoteHere t position) :=
  .after (.lift .currentScope) fun scope => t.denote_charged scope constantValue_charged h position

end Opal
