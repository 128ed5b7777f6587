import Opal.Proofs.ChargedScopes
import Opal.Proofs.Trees

/-!
# The charges of syntax trees

Every construct pays for itself at most once. What an expression stops with is charged to the statement or the declaration
around it.
-/

namespace Opal

open List

variable {region : Span} {d : Decl} {st : Stmt} {α : Type}

/-- A declaration stands in its own span. -/
lemma Decl.placed_span (h : PlacedIn region d.readings) : PlacedIn d.span d.readings := by
  cases d with
  | var d | const d | func d =>
    cases d
    exact h.inside

/-- The statements of a block stand where the block does. -/
lemma Block.placed_stmts {stmts : List Stmt} {span : Span} (h : PlacedIn region (Block.mk stmts span).readings) :
    ∀ st ∈ stmts, PlacedIn region st.readings := by
  intro st hst
  rw [Block.readings, stmtReadings_eq_prod] at h
  exact h.covered.right.left.prod (mem_map_of_mem hst)

lemma Stmt.placed_decl (h : PlacedIn region st.readings) (hd : st.decl? = some d) : PlacedIn region d.readings := by
  obtain ⟨span,form⟩ := st
  cases form with
  | decl d' =>
    obtain rfl := Option.some.inj hd
    exact h.covered
  | _ => cases hd

section Costs

variable {m : Check α} {N N' : List Node}

/-- A larger budget does as well. -/
lemma Charged.room {P : SemanticError → Prop} {N : List NodeId} {S S' : Multiset Site} (h : Charged P N S m) :
    Charged P N (S + S') m :=
  h.mono (Subperm.refl _) (Multiset.le_add_right ..) fun _ he => he

/-- The computation draws on the budget of the nodes and on that of the sites inside of them. -/
def CostsWith (region : Span) (N : List Node) (S : List Site) (m : Check α) : Prop :=
  Charged (Faults region) (N.map Node.id) (budget N + (S : Multiset Site)) m

lemma Costs.nodes (h : Costs region N m) (hN : N' = N := by simp [ExprForm.nodes, Expr.expr_operand]) : Costs region N' m :=
  hN ▸ h

/-- The rule of a form costs what the rules of its parts do. -/
theorem Costs.form {form : ExprForm} (h : Costs region N m)
    (hN : form.nodes = N := by simp [ExprForm.nodes, Expr.expr_operand]) : CostsWith region form.nodes form.sites m :=
  Charged.room (h.nodes hN)

/-- An expression has the budget of its form: its own number is one more that nothing is charged to. -/
theorem CostsWith.whole (e : Expr) (h : CostsWith region e.form.nodes e.form.sites m) : Costs region e.nodes m := by
  have hbudget : budget e.nodes = budget e.form.nodes + (e.form.sites : Multiset Site) := by
    rw [e.nodes_eq, budget_append, budget_expr]
  unfold Costs
  rw [hbudget, e.nodes_eq, map_append]
  exact Charged.mono h (sublist_append_left ..).subperm le_rfl fun _ he => he

end Costs

/-- A statement that is no declaration reports what it stops with, and pays for the report itself. -/
theorem Stmt.pays_of_charged (hst : st.decl? = none) {P : SemanticError → Prop}
    (h : Charged P (st.nodes.map Node.id) (budget st.nodes + (st.form.sites : Multiset Site)) st.check)
    (hP : ∀ e, P e → (Site.stmt st).Admits e) : st.Pays := by
  have hsites : st.sites = .stmt st :: st.form.sites := by
    obtain ⟨span,form⟩ := st
    cases form with
    | decl => cases hst
    | _ => rw [Stmt.sites]; simp
  have hrun := ChargedRun.reported h hP
  intro s hs
  unfold Stmt.parts at hs ⊢
  unfold Stmt.own
  rw [hst] at hs ⊢
  refine (hrun s hs).mono (List.Subset.refl _) (le_of_eq ?_)
  rw [hsites, ← Multiset.cons_coe, ← Multiset.singleton_add]
  change _ = _ + 0
  rw [add_zero]
  ac_rfl

lemma Stmt.pays_of_costs (hst : st.decl? = none) {N : List Node} (h : Costs st.span N st.check)
    (hN : st.nodes = N := by simp [Stmt.nodes, StmtForm.nodes, Expr.expr_operand]) : st.Pays :=
  Stmt.pays_of_charged hst (Charged.room (h.nodes hN)) fun _ he => Faults.admits he (.refl _)

/-- A block under a condition pays for its own statements. -/
theorem Stmt.pays_of_ifStmt {c : Expr} {b : Block} (hst : st.decl? = none) (hnodes : st.nodes = c.nodes ++ b.nodes)
    (hsites : st.form.sites = b.sites) (hcheck : st.check = ifStmt c.operand b.check) (hc : c.operand.Budgeted st.span)
    (hb : ChargedRun (b.nodes.map Node.id) (budget b.nodes + (b.sites : Multiset Site)) b.check) : st.Pays := by
  have hcharged := ifStmt_charged hc hb
  rw [c.expr_operand] at hcharged
  refine Stmt.pays_of_charged hst ?_ fun e he => Faults.admits he (.refl _)
  rw [hnodes, hsites, hcheck, map_append, budget_append, add_assoc]
  exact hcharged

/-- A declaration is paid for by its parts, and for an error of its own by itself, unless it paid while it was hoisted. -/
theorem Decl.pays_of_charged (span : Span) {m : BindingId → Check Unit} (hcheck : d.check = ifAccepted d.id m)
    (h : ∀ b, ChargedRun (d.parts.map Node.id) (budget d.parts + (d.innerSites : Multiset Site) +
      if Phase.value.charges (some b) d then {.decl d} else 0) (reported (m b))) : Stmt.Pays ⟨span,.decl d⟩ := by
  intro s hs
  change Charges (d.parts.map Node.id) (budget d.parts + (d.innerSites : Multiset Site) + s.costs .value [d]) s _
  rw [Stmt.check, StmtForm.check, hcheck, run_reported_ifAccepted, State.costs_cons, State.costs_nil, add_zero, State.cost]
  cases s.introduces[d.id]? with
  | none => exact (Charges.refl s).mono (nil_subset _) (Multiset.zero_le _)
  | some b => exact h b s hs

lemma stmtSites_eq_flatMap (ss : List Stmt) : stmtSites ss = ss.flatMap Stmt.sites :=
  eq_flatMap_of_cons rfl (fun _ _ => rfl) ss

/-- The parentheses around an expression in the region are taken off inside of it. -/
theorem Expr.withoutParens_within (e : Expr) (h : PlacedIn region e.readings) : e.withoutParens.span.Within region := by
  obtain ⟨id,span,form⟩ := e
  cases form with
  | paren e => exact e.withoutParens_within h.covered.right.left
  | _ => exact h.within

/-! ## The induction -/

mutual

/-- Both examinations of an expression cost what its parts do. -/
theorem Expr.operand_budgeted (e : Expr) {region : Span} (h : PlacedIn region e.readings) : e.operand.Budgeted region := by
  have hspan := Expr.span_within h
  have htarget := e.withoutParens_within h
  obtain ⟨id,span,form⟩ := e
  refine ⟨hspan,htarget,fun expected => ?_,fun use => ?_⟩
  · refine .after (.lift (.perform rfl)) fun _ => ?_
    refine .followed (CostsWith.whole ⟨id,span,form⟩ (form.value_costs id hspan h.covered expected)) fun t => ?_
    exact .after (.lift (.recordType id t)) fun _ => .pure t
  · refine .followed (CostsWith.whole ⟨id,span,form⟩ (form.place_costs id hspan h.covered use).form) fun place => ?_
    exact .after (.lift (.recordType id _)) fun _ => .pure place

/-- The value of a form costs what its parts do, and what its lambdas report. -/
lemma ExprForm.value_costs (form : ExprForm) (id : NodeId) {region span : Span} (hspan : span.Within region)
    (h : PlacedIn region form.readings) (expected : Option Ty) :
    CostsWith region form.nodes form.sites (form.value id span expected) := by
  cases form with
  | int text => exact .after (literalOfType_charged hspan text false expected) fun v => .pure v.type
  | bool | char | string => exact .pure _
  | name name => exact (readName_charged hspan id name).weaken
  | binary op l r =>
    exact (binaryValue_costs (l.operand_budgeted h.left) (r.operand_budgeted h.right.right) op expected).form
  | unary op e =>
    cases op with
    | neg => exact (negationValue_costs (e.operand_budgeted h.right) hspan expected).form
    | not => exact (complementValue_costs (e.operand_budgeted h.right)).form
  | addressOf e => exact (addressValue_costs (e.operand_budgeted h.right)).form
  | deref e => exact (derefValue_costs (e.operand_budgeted h.left)).form
  | index base index =>
    exact (indexValue_costs (base.operand_budgeted h.left) (index.operand_budgeted h.right.right.left)).form
  | call callee args =>
    rw [ExprForm.readings, argumentReadings_eq_map] at h
    have hargs := argumentOperands_budgeted args fun a ha => h.right.inParens (mem_map_of_mem ha)
    refine (callValue_costs hargs hspan (callee.operand_budgeted h.left)).form ?_
    rw [ExprForm.nodes, callee.expr_operand, (written_argumentOperands args).nodes_eq]
  | array elements =>
    rw [ExprForm.readings, exprReadings_eq_map] at h
    have helements := operands_budgeted elements fun e he => h.inBrackets (mem_map_of_mem he)
    exact (arrayValue_costs helements hspan expected).form (by rw [map_expr_operands, ExprForm.nodes])
  | lambda params ret body =>
    rw [ExprForm.readings, lambdaParamReadings_eq_map] at h
    have hret (t : TypeExpr) (ht : ret = some t) : PlacedIn region t.readings := by
      rw [ht, readingsAfter] at h
      exact h.right.left.right
    have hbody := body.check_costs h.right.right.right
    rw [CostsWith, ExprForm.nodes, ExprForm.value, map_append, budget_append, add_assoc]
    exact (lambdaValue_charged (fun p hp => h.left.inParens (mem_map_of_mem hp)) hret hbody hspan expected).mono
      (sublist_append_right ..).subperm (Multiset.le_add_left ..) fun _ he => he
  | paren e => exact ((e.operand_budgeted h.right.left).value expected).form

/-- As a place, a form costs what its parts do: a lambda is none. -/
lemma ExprForm.place_costs (form : ExprForm) (id : NodeId) {region span : Span} (hspan : span.Within region)
    (h : PlacedIn region form.readings) (use : PlacePurpose) : Costs region form.nodes (form.place id span use) := by
  cases form with
  | paren e => exact ((e.operand_budgeted h.right.left).place use).nodes
  | name name => exact (namedPlace_charged hspan id name use).weaken
  | deref e => exact (derefPlace_costs (e.operand_budgeted h.left)).nodes
  | index base index =>
    exact (indexPlace_costs (base.operand_budgeted h.left) (index.operand_budgeted h.right.right.left) use).nodes
  | _ => exact .fault hspan rfl

lemma operands_budgeted : ∀ (es : List Expr) {region : Span}, (∀ e ∈ es, PlacedIn region e.readings) →
    ∀ o ∈ operands es, o.Budgeted region
  | [], _, _ => by
    rw [operands]
    simp
  | e :: es, _, h =>
    forall_mem_cons.2 ⟨e.operand_budgeted (h e (.head _)), operands_budgeted es fun e' he' => h e' (.tail _ he')⟩

lemma Argument.operand_budgeted : ∀ (a : Argument) {region : Span}, PlacedIn region a.readings → a.operand.Budgeted region
  | ⟨none,value,_⟩, _, h => ⟨h.within,value.operand_budgeted h.covered⟩
  | ⟨some _,value,_⟩, _, h => ⟨h.within,value.operand_budgeted h.covered.right.right⟩

lemma argumentOperands_budgeted : ∀ (as : List Argument) {region : Span}, (∀ a ∈ as, PlacedIn region a.readings) →
    ∀ a ∈ argumentOperands as, a.Budgeted region
  | [], _, _ => by
    rw [argumentOperands]
    simp
  | a :: as, _, h =>
    forall_mem_cons.2 ⟨a.operand_budgeted (h a (.head _)), argumentOperands_budgeted as fun a' ha' => h a' (.tail _ ha')⟩

/-- Only the statements of a lambda report errors. -/
lemma LambdaBody.check_costs (body : LambdaBody) {region : Span} (h : PlacedIn region body.readings) (known : Option Ty) :
    CostsWith region body.nodes body.sites (body.check known) := by
  cases body with
  | expr e =>
    have hcosts := exprBody_costs (e.operand_budgeted h) known
    rw [e.expr_operand] at hcosts
    exact Charged.room hcosts
  | block b => exact blockBody_charged (b.check_charged h) known

/-- A block is charged for its statements, whatever order its declarations are examined in. -/
theorem Block.check_charged : ∀ (b : Block) {region : Span}, PlacedIn region b.readings →
    ChargedRun (b.nodes.map Node.id) (budget b.nodes + (b.sites : Multiset Site)) b.check
  | ⟨stmts,span⟩, _, h => by
    have hstmts := Block.placed_stmts h
    rw [Block.nodes, Block.sites, Block.check, checkStmts_eq_forM, stmtNodes_eq_flatMap, stmtSites_eq_flatMap]
    refine scope_charged (.refl _) (fun d hd => ?_) (stmts_pay stmts hstmts)
    obtain ⟨st,hst,hd⟩ := mem_filterMap.1 hd
    exact Decl.placed_span (Stmt.placed_decl (hstmts st hst) hd)

lemma stmts_pay : ∀ (ss : List Stmt) {region : Span}, (∀ st ∈ ss, PlacedIn region st.readings) → ∀ st ∈ ss, st.Pays
  | [], _, _ => by simp
  | s :: ss, _, h =>
    forall_mem_cons.2 ⟨s.pays (h s (.head _)), stmts_pay ss fun s' hs' => h s' (.tail _ hs')⟩

/-- Every statement pays for what it reports. -/
theorem Stmt.pays (st : Stmt) {region : Span} (h : PlacedIn region st.readings) : st.Pays := by
  obtain ⟨span,form⟩ := st
  have h := h.inside.covered
  cases form with
  | decl d => exact d.pays span h
  | assign target value =>
    exact Stmt.pays_of_costs rfl (assignStmt_costs (value.operand_budgeted h.right.right.left) (target.operand_budgeted h.left))
  | expr e => exact Stmt.pays_of_costs rfl (exprStmt_costs (e.operand_budgeted h.left))
  | ret v =>
    cases v with
    | none => exact Stmt.pays_of_charged rfl (bareReturnStmt_charged (.refl span)).weaken fun e he => Faults.admits he (.refl _)
    | some v =>
      have hcharged := returnStmt_charged (v.operand_budgeted h.right.left) v.expr_operand (.refl span)
      rw [v.expr_operand] at hcharged
      exact Stmt.pays_of_charged rfl hcharged.room fun e he => he
  | cond c t e =>
    cases e with
    | none =>
      exact Stmt.pays_of_ifStmt rfl (by rw [Stmt.nodes, StmtForm.nodes]) (by rw [StmtForm.sites])
        (by rw [Stmt.check, StmtForm.check]) (c.operand_budgeted h.right.left) (t.check_charged h.right.right)
    | some e =>
      have hcharged := ifElseStmt_charged (c.operand_budgeted h.right.left) (t.check_charged h.right.right.left)
        (e.pays h.right.right.right.right).run
      rw [c.expr_operand] at hcharged
      refine Stmt.pays_of_charged rfl ?_ fun e he => Faults.admits he (.refl _)
      rw [Stmt.nodes, StmtForm.nodes, StmtForm.sites, Stmt.check, StmtForm.check]
      simp only [map_append, budget_append, ← Multiset.coe_add]
      refine hcharged.mono (Subperm.refl _) (le_of_eq ?_) fun _ he => he
      ac_rfl
  | loop c b =>
    exact Stmt.pays_of_ifStmt rfl (by rw [Stmt.nodes, StmtForm.nodes]) (by rw [StmtForm.sites])
      (by rw [Stmt.check, StmtForm.check]; rfl) (c.operand_budgeted h.right.left) (b.check_charged h.right.right)
  | block b =>
    refine Stmt.pays_of_charged rfl ?_ fun e he => Faults.admits he (.refl span)
    exact .inNewScope (.lift (b.check_charged h))

/-- Every declaration pays for what it reports. A constant has paid when it was evaluated. -/
theorem Decl.pays (d : Decl) (span : Span) {region : Span} (h : PlacedIn region d.readings) : Stmt.Pays ⟨span,.decl d⟩ := by
  cases d with
  | var d => exact d.pays span h
  | const d =>
    refine Decl.pays_of_charged span (by rw [Decl.check]; rfl) fun b => ?_
    exact (ChargedRun.reported_never (constDecl_charged b)).mono nil_subperm (Multiset.zero_le _)
  | func d => exact d.pays span h

/-- A variable pays for what its initializer stops with. -/
lemma VarDecl.pays : ∀ (d : VarDecl) (span : Span) {region : Span}, PlacedIn region d.readings → Stmt.Pays ⟨span,.decl (.var d)⟩
  | ⟨id,name,nameSpan,mutable,type,init,varSpan⟩, span, _, h => by
    have hinner := h.inside.covered.right.right.right
    have hwritten (t : TypeExpr) (ht : type = some t) : PlacedIn varSpan t.readings := by
      rw [ht, readingsAfter] at hinner
      exact hinner.left.right
    refine Decl.pays_of_charged span (by rw [Decl.check, VarDecl.check]; rfl) fun b => ?_
    have hcosts := varDecl_costs (init.operand_budgeted hinner.right.right.left) name hwritten b
    rw [init.expr_operand] at hcosts
    have hparts : Costs varSpan (optionalTypeNodes type ++ init.nodes) (varDecl name type init.operand b) := .right hcosts
    have hadmits (e : SemanticError) (he : Faults varSpan e) :
        (Site.decl (.var ⟨id,name,nameSpan,mutable,type,init,varSpan⟩)).Admits e := he.admits (.refl varSpan)
    have hreported := ChargedRun.reported hparts hadmits
    rw [← add_zero (budget _)] at hreported
    exact hreported

/-- A function reports nothing itself: its parameters and statements do. -/
lemma FunDecl.pays : ∀ (d : FunDecl) (span : Span) {region : Span}, PlacedIn region d.readings →
    Stmt.Pays ⟨span,.decl (.func d)⟩
  | ⟨id,name,nameSpan,params,ret,body,funSpan⟩, span, _, h => by
    refine Decl.pays_of_charged span (by rw [Decl.check, FunDecl.check]; rfl) fun b => ?_
    have hcharged := funDecl_charged params (body.check_charged h.covered.right.right.right.right) b
    have hparts : (Decl.func ⟨id,name,nameSpan,params,ret,body,funSpan⟩).parts =
        paramNodes params ++ optionalTypeNodes ret ++ body.nodes := rfl
    have hinner : (Decl.func ⟨id,name,nameSpan,params,ret,body,funSpan⟩).innerSites = params.map .param ++ body.sites := rfl
    refine (ChargedRun.reported_never hcharged).mono ?_ ?_
    · rw [hparts, map_append]
      exact (sublist_append_right ..).subperm
    · rw [hparts, hinner, budget_append, ← Multiset.coe_add, add_left_comm]
      exact (add_le_add_left (Multiset.le_add_left ..) _).trans (Multiset.le_add_right ..)

end

end Opal
