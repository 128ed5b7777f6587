import Opal.Check.Tree
import Opal.Proofs.Calls
import Opal.Proofs.ChargedConstants
import Opal.Proofs.Statements

/-!
# The charges of expressions, statements and declarations

The rule of each form keeps within the budgets of its parts, and stops with an error in one of them or in the form itself.
-/

namespace Opal

open List

variable {p : LambdaParam} {os : List Operand} {callee : Operand} {ret written : Option TypeExpr} {e : SemanticError}
    {function : String}

/-- The computation draws on the budget of the nodes, and an error that it stops with lies inside the region. -/
def Costs {α : Type} (region : Span) (M : List Node) (m : Check α) : Prop :=
  Charged (Faults region) (M.map Node.id) (budget M) m

namespace Costs

variable {α β : Type} {region : Span} {M M' : List Node} {m : Check α} {f : α → Check β}

lemma bind (hm : Costs region M m) (hf : ∀ a, Costs region M' (f a)) : Costs region (M ++ M') (m >>= f) := by
  unfold Costs
  rw [map_append, budget_append]
  exact Charged.bind hm hf

lemma perm (hm : Costs region M m) (h : M.Perm M') : Costs region M' m :=
  Charged.mono hm (h.map _).subperm (budget_perm h).le fun _ he => he

lemma right (hm : Costs region M' m) : Costs region (M ++ M') m := by
  unfold Costs
  rw [map_append, budget_append]
  exact Charged.mono hm (sublist_append_right ..).subperm (Multiset.le_add_left ..) fun _ he => he

end Costs

/-- The two examinations of an expression in the region draw on its own budget. -/
structure Operand.Budgeted (region : Span) (o : Operand) : Prop where
  span : o.expr.span.Within region
  /-- The function of a call is looked up without the parentheses around its name. -/
  target : o.expr.withoutParens.span.Within region
  value : ∀ expected, Costs region o.expr.nodes (o.value expected)
  place : ∀ use, Costs region o.expr.nodes (o.place use)

variable {region span : Span}

/-- An operand that does not fit is a mismatch at the operand. -/
theorem Operand.Budgeted.against {o : Operand} (h : o.Budgeted region) (expected : Ty) :
    Costs region o.expr.nodes (o.against expected) := by
  refine .followed (h.value _) fun found => ?_
  split
  · exact .pure found
  · next hfit =>
    refine .mismatch h.span fun heq => hfit ?_
    rw [Ty.display_injective heq]
    exact Ty.fit_self_ok found

/-! ## Names -/

section

variable (hspan : span.Within region)
include hspan

/-- A binding that cannot be read is a fault of the name. -/
theorem readBinding_charged (b : BindingId) (name : String) : Charged (Faults region) [] 0 (readBinding b name span) := by
  refine .after (referentOf_charged b) fun r => ?_
  split
  · exact .pure _
  · exact .blocked
  · exact .blocked
  · exact .fault hspan rfl
  · exact .fault hspan rfl
  · exact .after (constantValue_charged b).of_never fun v => .pure v.type
  · exact .ite .blocked (.pure _)

lemma bindingNamed_charged (id : NodeId) (name : String) : Charged (Faults region) [] 0 (bindingNamed id name span) :=
  .after (.lift .currentScope) fun scope => findFrom_charged hspan scope id name

lemma readName_charged (id : NodeId) (name : String) : Charged (Faults region) [] 0 (readName id name span) :=
  .after (bindingNamed_charged hspan id name) fun b => readBinding_charged hspan b name

lemma namedPlace_charged (id : NodeId) (name : String) (use : PlacePurpose) :
    Charged (Faults region) [] 0 (namedPlace id name span use) := by
  refine .after (bindingNamed_charged hspan id name) fun b => .after (referentOf_charged b) fun r => ?_
  split
  · exact .after (readBinding_charged hspan b name) fun t => .pure _
  · split
    · exact .fault hspan rfl
    · exact .fault hspan rfl

end

/-! ## Operators -/

section Operators

variable {o l r : Operand} (ho : o.Budgeted region) (hl : l.Budgeted region) (hr : r.Budgeted region)

include hl hr in
/-- Two operands draw on both budgets, whichever is examined first. -/
theorem operandTypes_costs (op : BinaryOp) (expected : Option Ty) :
    Costs region (l.expr.nodes ++ r.expr.nodes) (operandTypes op l r expected) := by
  refine .ite ?_ ?_
  · refine Costs.perm (.bind (hr.value _) fun tr => ?_) perm_append_comm
    exact .followed (hl.value _) fun tl => .pure (tl, tr)
  · refine Costs.bind (hl.value _) fun tl => ?_
    exact .followed (hr.value _) fun tr => .pure (tl, tr)

lemma BinaryOp.wanted_ne_display {op : BinaryOp} {t : Ty} (h : op.accepts t = false) : op.wanted ≠ t.display := by
  have hne := BinaryOp.ne_display_of_accepts h
  unfold BinaryOp.wanted
  split
  · next hlogical => rwa [if_pos hlogical] at hne
  · split
    · exact (t.display_ne_sortWord (by decide)).symm
    · exact (t.display_ne_sortWord (by decide)).symm

include hl hr in
/-- A binary operator stops at the operand that it does not accept. -/
theorem binaryValue_costs (op : BinaryOp) (expected : Option Ty) :
    Costs region (l.expr.nodes ++ r.expr.nodes) (binaryValue op l r expected) := by
  refine .followed (operandTypes_costs hl hr op expected) fun (tl, tr) => ?_
  dsimp only
  split
  · next haccepts =>
    have haccepts : op.accepts tl = false := by
      simp only [Bool.not_eq_true', Bool.or_eq_false_iff] at haccepts
      exact haccepts.1
    exact .mismatch hl.span (BinaryOp.wanted_ne_display haccepts)
  · split
    · next hfit =>
      refine .mismatch hr.span fun heq => hfit ?_
      rw [Ty.display_injective heq]
      exact if_pos (Or.inl rfl)
    · exact .pure _

include ho in
lemma negationValue_costs (hspan : span.Within region) (expected : Option Ty) :
    Costs region o.expr.nodes (negationValue o span expected) := by
  unfold negationValue
  split
  · exact .after (literalOfType_charged hspan _ true expected) fun v => .after (.lift (.recordType _ _)) fun _ => .pure _
  · refine .followed (ho.value expected) fun t => ?_
    have hsigned : Charged (Faults region) [] 0 (negationValue.notSigned o t) :=
      .mismatch ho.span (t.display_ne_sortWord (by decide)).symm
    split
    · exact .ite (.pure _) hsigned
    · exact .pure _
    · exact hsigned

include ho in
lemma complementValue_costs : Costs region o.expr.nodes (complementValue o) :=
  .followed (ho.against .bool) fun _ => .pure Ty.bool

include ho in
lemma addressValue_costs : Costs region o.expr.nodes (addressValue o) :=
  .followed (ho.place .addressOf) fun _ => .lift (.built _)

include ho in
lemma derefPlace_costs : Costs region o.expr.nodes (derefPlace o) := by
  refine .followed (ho.value none) fun t => ?_
  split
  · exact .pure _
  · exact .mismatch ho.span (Ty.display_ne_sortWord _ (by decide)).symm

include ho in
lemma derefValue_costs : Costs region o.expr.nodes (derefValue o) :=
  .followed (derefPlace_costs ho) fun place => .pure place.type

include ho in
/-- An index draws on its own budget. -/
theorem elementType_costs (hspan : span.Within region) (base : Ty) : Costs region o.expr.nodes (elementType base span o) := by
  unfold elementType
  split
  · refine .ite ?_ ?_
    · exact .followed (ho.value _) fun _ => .pure _
    · refine .followed (ho.value none) fun t => ?_
      exact .ite (.pure _) (.mismatch ho.span (t.display_ne_sortWord (by decide)).symm)
  · exact .mismatch hspan (Ty.display_ne_sortWord _ (by decide)).symm

include hl hr in
lemma indexValue_costs : Costs region (l.expr.nodes ++ r.expr.nodes) (indexValue l r) :=
  .bind (hl.value none) fun base => elementType_costs hr hl.span base

include hl hr in
lemma indexPlace_costs (use : PlacePurpose) : Costs region (l.expr.nodes ++ r.expr.nodes) (indexPlace l r use) :=
  .bind (hl.place use) fun place => .followed (elementType_costs hr hl.span place.type) fun _ => .pure _

end Operators

lemma checkElements_costs (element : Ty) : ∀ {os : List Operand}, (∀ o ∈ os, o.Budgeted region) →
    Costs region (exprNodes (os.map (·.expr))) (checkElements element os)
  | [], _ => .pure ()
  | o :: os, h => by
    refine .bind ((h o mem_cons_self).against element) fun _ => ?_
    exact checkElements_costs element fun o' ho' => h o' (mem_cons_of_mem _ ho')

/-- The elements of an array draw on their budgets in the order in which they are examined. -/
theorem ownArrayValue_costs (h : ∀ o ∈ os, o.Budgeted region) (hspan : span.Within region) :
    Costs region (exprNodes (os.map (·.expr))) (ownArrayValue os span) := by
  intro s hs
  unfold ownArrayValue
  cases hfirst : decidingElement os with
  | none => exact Charged.fault hspan rfl s hs
  | some first =>
    -- The element that decides is examined first, and the others are those with other numbers.
    have hmem := mem_of_decidingElement hfirst
    have hids : (os.map (·.expr.id)).Nodup := by
      simpa [Function.comp_def] using nodup_ids_of_exprNodes hs.nodup
    have hnodes := exprNodes_perm ((perm_deciding hmem hids).map (·.expr))
    refine Costs.perm ?_ hnodes.symm s hs
    rw [map_cons, exprNodes]
    refine .bind ((h first hmem).value none) fun t => .ite (.fault (h first hmem).span rfl) ?_
    exact .followed (checkElements_costs t fun o ho => h o (mem_of_mem_filter ho)) fun _ => .lift (.built _)

lemma arrayValue_costs (h : ∀ o ∈ os, o.Budgeted region) (hspan : span.Within region)
    (expected : Option Ty) : Costs region (exprNodes (os.map (·.expr))) (arrayValue os span expected) := by
  unfold arrayValue
  split
  · exact .ite (.fault hspan rfl) (.followed (checkElements_costs _ h) fun _ => .pure _)
  · exact .blocked
  · exact ownArrayValue_costs h hspan

/-! ## Calls -/

/-- An argument in the region whose value draws on its own budget. -/
def ArgumentOperand.Budgeted (region : Span) (a : ArgumentOperand) : Prop :=
  a.span.Within region ∧ a.value.Budgeted region

lemma ArgumentBinding.faults_of_step {params : List Formal} {b : ArgumentBinding}
    {a : ArgumentOperand} (h : b.step function params a = .error e) : Faults a.span e := by
  unfold ArgumentBinding.step at h
  split at h
  · split at h
    · cases h
      exact .of_cause (.refl _) rfl
    · split at h <;> cases h
      exact .of_cause (.refl _) rfl
  · split at h <;> cases h

lemma ArgumentBinding.faults_of_foldlM {params : List Formal} :
    ∀ {args : List ArgumentOperand} {b : ArgumentBinding}, (∀ a ∈ args, a.span.Within region) →
      args.foldlM (ArgumentBinding.step function params) b = .error e → Faults region e
  | [], _, _, h => by cases h
  | a :: args, b, hargs, h => by
    rw [foldlM_cons] at h
    cases hstep : b.step function params a with
    | error e' =>
      rw [hstep] at h
      cases h
      exact (ArgumentBinding.faults_of_step hstep).mono (hargs a mem_cons_self)
    | ok b' =>
      rw [hstep] at h
      exact faults_of_foldlM (fun a' ha' => hargs a' (mem_cons_of_mem _ ha')) h

/-- What is wrong with the binding of arguments is a fault of one of them, or of the call. -/
theorem faults_of_bindArguments {params : List Formal} {args : List ArgumentOperand}
    (hargs : ∀ a ∈ args, a.span.Within region) (hspan : span.Within region)
    (h : bindArguments function params args span = .error e) : Faults region e := by
  unfold bindArguments at h
  cases hfold : args.foldlM (ArgumentBinding.step function params) (.initial params) with
  | error e' =>
    rw [hfold] at h
    cases h
    exact ArgumentBinding.faults_of_foldlM hargs hfold
  | ok b =>
    rw [hfold] at h
    dsimp only [bind, Except.bind] at h
    split at h
    · cases h
      exact .of_cause hspan rfl
    · split at h <;> cases h
      exact .of_cause hspan rfl

lemma checkArguments_costs : ∀ (ts : List Ty) {args : List ArgumentOperand}, (∀ a ∈ args, a.Budgeted region) →
    Costs region (exprNodes (args.map (·.value.expr))) (checkArguments ts args)
  | t :: ts, a :: args, h => by
    refine .bind ((h a mem_cons_self).2.against t) fun _ => ?_
    exact checkArguments_costs ts fun a' ha' => h a' (mem_cons_of_mem _ ha')
  | [], _, _ | _ :: _, [], _ => .pure ()

section Calls

variable {args : List ArgumentOperand} (hargs : ∀ a ∈ args, a.Budgeted region) (hspan : span.Within region)
include hargs hspan

lemma namedCall_costs (name : String) (t : Ty) (params : List Formal) :
    Costs region (exprNodes (args.map (·.value.expr))) (namedCall name t params args span) := by
  unfold namedCall
  split
  · next ret =>
    cases hbound : bindArguments name params args span with
    | error e =>
      refine .throw fun e' he' => ?_
      cases he'
      exact faults_of_bindArguments (fun a ha => (hargs a ha).1) hspan hbound
    | ok bound =>
      have hperm := (bindArguments_perm hbound).1
      refine Costs.perm ?_ (exprNodes_perm (hperm.map (·.value.expr)))
      have hcheck : Costs region (exprNodes (bound.map (·.value.expr))) (do
          checkArguments (params.map (·.type)) bound
          return ret) :=
        .followed (checkArguments_costs _ fun a ha => hargs a (hperm.mem_iff.1 ha)) fun _ => .pure ret
      exact hcheck
  · exact .blocked

lemma valueCall_costs (hcallee : callee.Budgeted region) :
    Costs region (callee.expr.nodes ++ exprNodes (args.map (·.value.expr))) (valueCall callee args span) := by
  refine .bind (hcallee.value none) fun t => ?_
  split
  · split
    · next a ha => exact .fault (hargs a (mem_of_find?_eq_some ha)).1 rfl
    · exact .ite (.fault hspan rfl) (.followed (checkArguments_costs _ hargs) fun _ => .pure _)
  · exact .mismatch hcallee.span (Ty.display_ne_sortWord _ (by decide)).symm

/-- A call draws on the budgets of its callee and of its arguments. -/
theorem callValue_costs (hcallee : callee.Budgeted region) :
    Costs region (callee.expr.nodes ++ exprNodes (args.map (·.value.expr))) (callValue callee args span) := by
  unfold callValue
  dsimp only
  split
  · next name _ =>
    refine .after (bindingNamed_charged hcallee.target _ name) fun b => .after (referentOf_charged b) fun r => ?_
    split
    · refine .after (readBinding_charged hcallee.target b name) fun t => ?_
      refine .after (.lift (.recordType _ _)) fun _ => .after (.lift (.recordType _ _)) fun _ => ?_
      exact Costs.right (namedCall_costs hargs hspan name t _)
    · exact valueCall_costs hargs hspan hcallee
  · exact valueCall_costs hargs hspan hcallee

end Calls

/-! ## Lambdas -/

section Lambdas

variable {params : List LambdaParam} (hparams : ∀ p ∈ params, PlacedIn region p.readings) {N : List NodeId} {S : Multiset Site}

lemma LambdaParam.span_within (h : PlacedIn region p.readings) : p.span.Within region := by
  cases p
  exact h.within

lemma LambdaParam.placed_type (h : PlacedIn region p.readings) {t : TypeExpr} (ht : p.type = some t) :
    PlacedIn region t.readings := by
  obtain ⟨name,type,span⟩ := p
  obtain rfl : type = some t := ht
  exact h.covered.right.right

lemma lambdaParamType_charged (hp : PlacedIn region p.readings) (wanted : Ty) :
    Charged (Faults region) [] 0 (lambdaParamType p wanted) := by
  unfold lambdaParamType
  split
  · exact .pure _
  · next written ht =>
    have hwritten := LambdaParam.placed_type hp ht
    refine .after (denoteHere_charged hwritten .value) fun t => ?_
    split
    · next hne => exact .mismatch (written.span_within hwritten) fun heq => hne (Ty.display_injective heq).symm
    · exact .pure _

include hparams in
lemma lambdaParamTypes_charged (target : Option (List Ty)) (hspan : span.Within region) :
    Charged (Faults region) [] 0 (lambdaParamTypes params target span) := by
  unfold lambdaParamTypes
  split
  · refine .mapM fun p hp => ?_
    unfold ownParamType
    split
    · exact .fault (LambdaParam.span_within (hparams p hp)) rfl
    · next ht => exact denoteHere_charged (LambdaParam.placed_type (hparams p hp) ht) .value
  · refine .ite (.fault hspan rfl) (.mapM ?_)
    rintro ⟨p,wanted⟩ hp
    exact lambdaParamType_charged (hparams p (of_mem_zip hp).1) wanted

lemma lambdaReturn_charged (hret : ∀ t, ret = some t → PlacedIn region t.readings)
    (target : Option Ty) : Charged (Faults region) [] 0 (lambdaReturn ret target) := by
  unfold lambdaReturn
  split
  · exact .pure _
  · next written =>
    have hwritten := hret written rfl
    refine .after (denoteHere_charged hwritten .result) fun t => ?_
    split
    · exact .pure _
    · split
      · next hne => exact .mismatch (written.span_within hwritten) fun heq => hne (Ty.display_injective heq).symm
      · exact .pure _

lemma declareLambdaParams_charged : ∀ {params : List LambdaParam}, (∀ p ∈ params, PlacedIn region p.readings) →
    ∀ ts, Charged (Faults region) [] 0 (declareLambdaParams params ts)
  | p :: ps, h, t :: ts => by
    refine .after (.lift .currentScope) fun scope => ?_
    refine .after (declareIn_charged rfl (LambdaParam.span_within (h p mem_cons_self)) scope p.name) fun _ => ?_
    exact declareLambdaParams_charged (fun p' hp' => h p' (mem_cons_of_mem _ hp')) ts
  | [], _, _ | _ :: _, _, [] => .pure ()

include hparams in
/-- A lambda draws on the budget of its body only. -/
theorem lambdaValue_charged (hret : ∀ t, ret = some t → PlacedIn region t.readings)
    {body : Option Ty → Check Ty} (hbody : ∀ known, Charged (Faults region) N S (body known))
    (hspan : span.Within region) (expected : Option Ty) :
    Charged (Faults region) N S (lambdaValue params ret body span expected) := by
  refine .after (lambdaParamTypes_charged hparams _ hspan) fun types => ?_
  refine .after (lambdaReturn_charged hret _) fun known => ?_
  refine .followed (.inNewScope ?_) fun result => .lift (.built _)
  exact .after (declareLambdaParams_charged hparams types) fun _ => hbody known

lemma exprBody_costs {o : Operand} (ho : o.Budgeted region) (known : Option Ty) :
    Costs region o.expr.nodes (exprBody o known) := by
  unfold exprBody
  split
  · exact ho.value none
  · exact .followed (ho.value none) fun _ => .pure _
  · exact .followed (ho.against _) fun _ => .pure _

lemma blockBody_charged {body : Run Unit} (hbody : ChargedRun N S body) (known : Option Ty) :
    Charged (Faults region) N S (blockBody body known) :=
  .followed (.lift (.returning _ hbody)) fun _ => .pure _

end Lambdas

/-! ## Statements -/

section Statements

variable {o target : Operand} (ho : o.Budgeted region) {N N' : List NodeId} {S S' : Multiset Site} {body : Run Unit}

include ho in
lemma assignStmt_costs (htarget : target.Budgeted region) :
    Costs region (target.expr.nodes ++ o.expr.nodes) (assignStmt target o) := by
  refine Costs.bind (htarget.place .assign) fun place => .ite ?_ ?_
  · exact .followed (ho.against _) fun _ => .pure ()
  · split
    · exact .fault htarget.span rfl
    · exact .fault htarget.span rfl

include ho in
lemma exprStmt_costs : Costs region o.expr.nodes (exprStmt o) :=
  .followed (ho.value none) fun _ => .pure ()

include ho in
/-- A `return` with a value where nothing is returned is always a mismatch, if only of nothing with nothing. -/
theorem returnStmt_charged {stmtSpan : Span} {v : Expr} (hv : o.expr = v) (hregion : region.Within stmtSpan) :
    Charged (Site.stmt ⟨stmtSpan,.ret (some v)⟩).Admits (o.expr.nodes.map Node.id) (budget o.expr.nodes) (returnStmt o) := by
  have hfaults : ∀ e, Faults region e → (Site.stmt ⟨stmtSpan,.ret (some v)⟩).Admits e := fun e he => he.admits hregion
  refine .after (.lift .resultType) fun ret => .ite ?_ ?_
  · refine .followed (.mono (ho.value none) (Subperm.refl _) le_rfl hfaults) fun found => ?_
    refine .fail ?_
    by_cases hfound : found = .void
    · rw [hfound]
      exact ⟨ho.span.trans hregion,.inr ⟨stmtSpan,v,rfl,by rw [hv]; rfl⟩⟩
    · refine ⟨ho.span.trans hregion,.inl (SemanticError.distinct_mismatch (fun heq => hfound ?_) _)⟩
      exact (Ty.display_injective (show Ty.void.display = found.display from heq)).symm
  · exact .mono (.followed (ho.against ret) fun _ => .pure ()) (Subperm.refl _) le_rfl hfaults

lemma bareReturnStmt_charged (hspan : span.Within region) : Charged (Faults region) [] 0 (bareReturnStmt span) := by
  refine .after (.lift .resultType) fun ret => ?_
  split
  · exact .pure ()
  · next hret => exact .mismatch hspan fun heq => hret (Ty.display_injective (show ret.display = Ty.void.display from heq))

include ho in
lemma ifStmt_charged (hbody : ChargedRun N S body) :
    Charged (Faults region) (o.expr.nodes.map Node.id ++ N) (budget o.expr.nodes + S) (ifStmt o body) :=
  .bind (ho.against .bool) fun _ => .inNewScope (.lift hbody)

include ho in
/-- The branches of a conditional draw on their own budgets. -/
theorem ifElseStmt_charged {branch : Check Unit} (hbody : ChargedRun N S body) (hbranch : ChargedRun N' S' (reported branch)) :
    Charged (Faults region) (o.expr.nodes.map Node.id ++ N ++ N') (budget o.expr.nodes + S + S') (ifElseStmt o body branch) :=
  .bind (ifStmt_charged ho hbody) fun _ => .lift hbranch

end Statements

/-! ## Declarations -/

section Declarations

variable {o : Operand} {N : List NodeId} {S : Multiset Site}

@[simp] lemma Referent.isPending_setVarStage (r : Referent) (stage : VarStage) :
    (r.setVarStage stage).isPending = r.isPending := by
  cases r <;> rfl

@[simp] lemma Referent.isPending_setVarType (r : Referent) (t : Ty) : (r.setVarType t).isPending = r.isPending := by
  cases r <;> rfl

lemma varType_costs (ho : o.Budgeted region) (name : String)
    (hwritten : ∀ t, written = some t → PlacedIn region t.readings) : Costs region o.expr.nodes (varType name written o) := by
  unfold varType
  split
  · next t =>
    exact .after (denoteHere_charged (hwritten t rfl) .value) fun _ => .followed (ho.against _) fun _ => .pure _
  · exact .followed (ho.value none) fun _ => .ite (.fault ho.span rfl) (.pure _)

/-- A variable draws on the budget of its initial value. -/
theorem varDecl_costs (ho : o.Budgeted region) (name : String)
    (hwritten : ∀ t, written = some t → PlacedIn region t.readings) (b : BindingId) :
    Costs region o.expr.nodes (varDecl name written o b) := by
  have hmark (f : Referent → Referent) (hf : ∀ r, (f r).isPending = r.isPending) : ChargedRun [] 0 (modifyReferent b f) :=
    .modifyReferent b fun r hr => hf r ▸ hr
  have hinit : Costs region o.expr.nodes (do
      let t ← varType name written o
      modifyReferent b fun r => (r.setVarType t).setVarStage .initialized) :=
    .followed (varType_costs ho name hwritten) fun t => .lift (hmark _ fun r => by simp)
  refine .after (.lift (hmark _ fun r => by simp)) fun _ => ?_
  rw [← add_zero (budget _)]
  exact hinit.tryCatch fun stop hstop => .after (.lift (hmark _ fun r => by simp)) fun _ => .throw hstop

lemma constDecl_charged (b : BindingId) : Charged (fun _ => False) [] 0 (constDecl b) :=
  .after (constantValue_charged b) fun _ => .pure ()

lemma declareParams_charged (scope : ScopeId) : ∀ (ps : List Param) (fs : List Formal),
    ChargedRun [] (ps.map Site.param : List Site) (declareParams scope ps fs)
  | p :: ps, f :: fs => by
    rw [declareParams, map_cons, ← Multiset.cons_coe, ← Multiset.singleton_add, ← zero_add {_}]
    refine .bind (N := []) (.reported (P := Faults p.span) ?_ fun e he => he.admits (.refl _)) fun _ =>
      declareParams_charged scope ps fs
    exact .after (declareIn_charged rfl (.refl p.span) scope p.name) fun _ => .pure ()
  | [], _ | _ :: _, [] => (ChargedRun.pure ()).mono (Subperm.refl _) (Multiset.zero_le _)

lemma funDecl_charged (params : List Param) {body : Run Unit} (hbody : ChargedRun N S body) (b : BindingId) :
    Charged (fun _ => False) N ((params.map Site.param : List Site) + S) (funDecl params body b) := by
  refine .after (referentOf_charged b) fun r => ?_
  split
  · refine .inNewScope (.after (.lift .currentScope) fun scope => ?_)
    exact Charged.bind (N := []) (.lift (declareParams_charged scope params _)) fun _ => .lift (.returning _ hbody)
  · exact .pure ()

end Declarations

end Opal
