import Opal.Proofs.Calls
import Opal.Proofs.ParsedTrees
import Opal.Proofs.ScopeSequences

/-!
# The examination of syntax trees

The examination of every expression, statement and block achieves what it should, by induction on the tree.
-/

namespace Opal

section Forms

variable {e : Expr} {expected : Option Ty} {t : Ty} {p : Place} {s : State} {id : NodeId} {form : ExprForm} {span : Span}

/-- Parentheses have the type of what stands in them. -/
lemma HasType.paren (h : HasType e expected t s) : GivesType ⟨id,span,.paren e⟩ expected t s := by
  refine .of_parts (by simp) rfl (fun u hu => Option.mem_unique hu h.typed) h.result ?_ ?_
  · rw [Expr.isContextual, ExprForm.isContextual]
    exact h.contextual
  · rw [ExprForm.nodes]
    exact h.covers

/-- Parentheses are the place of what stands in them. -/
lemma IsPlace.paren (h : IsPlace e p s) : GivesPlace ⟨id,span,.paren e⟩ p s := by
  refine .of_parts (by simp) rfl (fun u hu => Option.mem_unique hu h.typed) h.value ?_ ?_
  · rw [Expr.mutability, ExprForm.mutability]
    exact h.mutability
  · rw [ExprForm.nodes]
    exact h.covers

/-- An expression without parts has its type as soon as it is recorded. -/
lemma GivesType.leaf (hname : ∀ name, form ≠ .name name)
    (hskips : (Expr.mk id span form).skips s.toFindings = []) (hnodes : form.nodes = [])
    (hobeys : s.Obeys ⟨id,span,form⟩ t) (hresult : t.isResult = true) (hctx : (Expr.mk id span form).isContextual = true →
      ∃ i, expected = some (.int i) ∧ t = .int i) : GivesType ⟨id,span,form⟩ expected t s := by
  refine .of_parts hname hskips hobeys hresult hctx ?_
  rw [hnodes]
  exact .nil

/-- The name in an expression refers to what is found, if this is so inside the parentheses. -/
theorem Expr.refersTo_operand {name : String} {b : BindingId}
    (expected : Option Ty) (hname : (Expr.mk id span form).withoutParens.form = .name name)
    (hready : Ready (Expr.mk id span form).nodes s) (hcalm : Calm s)
    (hb : s.scopes.lookup s.scopes.current name (Expr.mk id span form).withoutParens.span = .ok b)
    (hparen : ∀ x, form = .paren x → x.operand.Examined) : (((Expr.mk id span form).operand.value expected).run s).2.refersTo[
      (Expr.mk id span form).withoutParens.id]? = some b := by
  have hbegun := Alike.step s (e := .begun id expected) rfl
  have hready := hbegun.ready hready hready.sound.results
  have hcalm := hbegun.calm hcalm
  change ((form.value id span expected >>= fun t => do
    recordType id t
    return t : Check Ty).run (s.step (.begun id expected))).2.refersTo[_]? = some b
  rw [refersTo_run_record _ fun t => t]
  rcases Expr.withoutParens_cases ⟨id,span,form⟩ with ⟨x,rfl,hwithout,-⟩ | ⟨hself,-⟩
  · rw [hwithout] at hname hb ⊢
    have hx := hparen x rfl
    have hexpr := x.expr_operand
    have h := hx.names name b expected _ (hexpr.symm ▸ hname) (hexpr.symm ▸ hready.left) hcalm (hexpr.symm ▸ hb)
    rwa [hexpr] at h
  · rw [hself] at hname hb ⊢
    obtain rfl : form = .name name := hname
    exact refersTo_readName hready hcalm hb

end Forms

/-- The rules speak of an operand, and of an expression only as what it examines. -/
lemma Expr.exists_operand (e : Expr) (h : e.operand.Examined) : ∃ o : Operand, o.Examined ∧ e.operand = o ∧ e = o.expr :=
  ⟨_,h,rfl,e.expr_operand.symm⟩

/-! ## Lists -/

lemma map_expr_operands (es : List Expr) : (operands es).map (·.expr) = es := by
  induction es with
  | nil => rw [operands]; rfl
  | cons e es ih => rw [operands, List.map_cons, e.expr_operand, ih]

lemma written_argumentOperands (as : List Argument) : Written (argumentOperands as) as := by
  induction as with
  | nil =>
    exact .nil
  | cons a as ih =>
    obtain ⟨name,value,span⟩ := a
    exact .cons value.expr_operand ih

lemma stmtNodes_eq_flatMap (ss : List Stmt) : stmtNodes ss = ss.flatMap Stmt.nodes :=
  eq_flatMap_of_cons rfl (fun _ _ => rfl) ss

lemma checkStmts_eq_forM (ss : List Stmt) : checkStmts ss = ss.forM fun st => reported st.check := by
  induction ss with
  | nil => rw [checkStmts]; rfl
  | cons s ss ih => rw [checkStmts, ih]; rfl

/-- What follows `else` is no declaration, so its examination is that of its own nodes. -/
lemma Stmt.checks_of_isElseBranch {st : Stmt} (h : st.isElseBranch = true) (hst : st.Examined) : Checks st.nodes st.check := by
  obtain ⟨span,form⟩ := st
  cases form with
  | cond | block => exact hst
  | _ => cases h

/-! ## The induction -/

mutual

/-- Both examinations of an expression achieve what they should. -/
theorem Expr.operand_examined : ∀ e : Expr, e.Shaped → e.operand.Examined
  | ⟨id,span,form⟩, hshaped => by
    rw [Expr.Shaped] at hshaped
    have hparen (x : Expr) (hx : form = .paren x) : x.operand.Examined := by
      match form, hshaped, hx with
      | .paren x, hshaped, rfl =>
        rw [ExprForm.Shaped] at hshaped
        exact x.operand_examined hshaped
    have hnames {name b s} (expected) (hname) (hready : Ready (Expr.mk id span form).nodes s) (hcalm)
        (hb : s.scopes.lookup s.scopes.current name _ = .ok b) :=
      Expr.refersTo_operand expected hname hready hcalm hb hparen
    rw [Expr.operand] at hnames ⊢
    refine ⟨fun expected s hready hcalm hexp => ?_,fun use s hready hcalm => ?_,
      fun name b expected s hname hready hcalm hb => hnames expected hname hready hcalm hb⟩
    · refine Meets.bindNil hready (.begun hready.sound id expected) fun _ s1 hstep _ => ?_
      have hready1 := hready.after hstep
      have hcalm1 := hcalm.step hstep
      rcases form.isPlain_cases with hplain | ⟨name,rfl⟩ | ⟨x,text,rfl,hlit⟩
      · have hform : Ready form.nodes s1 := Ready.left (by rwa [Expr.nodes] at hready1)
        exact Meets.typed (e := ⟨id,span,form⟩) hready1 (form.value_meets id span hshaped hplain expected s1 hform hcalm1 hexp)
      · rw [ExprForm.value]
        exact readName_meets hready1 hcalm1
      · obtain ⟨o,hop,rfl⟩ : ∃ o, x.operand = o ∧ x = o.expr := ⟨_,rfl,x.expr_operand.symm⟩
        rw [ExprForm.value, hop]
        exact negatedLiteralValue_meets hlit hready1 hexp
    · by_cases hname : ∃ name, form = .name name
      · obtain ⟨name,rfl⟩ := hname
        dsimp only
        rw [ExprForm.place]
        exact namedPlace_meets hready hcalm use
      · have hform : Ready form.nodes s := Ready.left (by rwa [Expr.nodes] at hready)
        exact Meets.placed (e := ⟨id,span,form⟩) hready
          (form.place_meets id span hshaped (fun name h => hname ⟨name,h⟩) use s hform hcalm)

/-- The rule of a form gives it a type. Names, and literals under a minus sign, have rules of their own. -/
theorem ExprForm.value_meets (form : ExprForm) (id : NodeId) (span : Span) (hshaped : form.Shaped) (hplain : form.IsPlain)
    (expected : Option Ty) (s : State) (hready : Ready form.nodes s) (hcalm : Calm s) (hexp : Expects expected) :
    Meets form.nodes s (form.value id span expected) (GivesType ⟨id,span,form⟩ expected) := by
  cases form with
  | int text =>
    have hnil : (ExprForm.int text).nodes = [] := by rw [ExprForm.nodes]
    refine Meets.thenPure hready (Meets.literalOfType hready hexp text false span) ?_
    rintro v s' - ⟨rfl,i,n,rfl,hn,rfl,hi⟩
    exact .leaf (by simp) rfl hnil ⟨i,n,rfl,hn,hi⟩ rfl fun _ => ⟨i,rfl,rfl⟩
  | bool | char | string =>
    exact .pure hready (.leaf (by simp) rfl (by rw [ExprForm.nodes]) rfl rfl
      (by simp [Expr.isContextual, ExprForm.isContextual]))
  | name name => exact absurd rfl (hplain.1 name)
  | binary op l r =>
    obtain ⟨left,hl,hleft,rfl⟩ := l.exists_operand (l.operand_examined hshaped.1)
    obtain ⟨right,hr,hright,rfl⟩ := r.exists_operand (r.operand_examined hshaped.2)
    rw [ExprForm.value, hleft, hright]
    exact binaryValue_meets hl hr hready hcalm hexp op
  | unary op e =>
    obtain ⟨o,ho,hop,rfl⟩ := e.exists_operand (e.operand_examined hshaped)
    cases op with
    | neg =>
      rw [ExprForm.value, hop]
      exact negationValue_meets ho (hplain.2 _ rfl) hready hcalm hexp
    | not =>
      rw [ExprForm.value, hop]
      exact complementValue_meets ho hready hcalm
  | addressOf e =>
    obtain ⟨o,ho,hop,rfl⟩ := e.exists_operand (e.operand_examined hshaped)
    rw [ExprForm.value, hop]
    exact addressValue_meets ho hready hcalm
  | deref e =>
    obtain ⟨o,ho,hop,rfl⟩ := e.exists_operand (e.operand_examined hshaped)
    rw [ExprForm.value, hop]
    exact derefValue_meets ho hready hcalm
  | index base index =>
    obtain ⟨ob,hbase,hob,rfl⟩ := base.exists_operand (base.operand_examined hshaped.1)
    obtain ⟨oi,hindex,hoi,rfl⟩ := index.exists_operand (index.operand_examined hshaped.2)
    rw [ExprForm.value, hob, hoi]
    exact indexValue_meets hbase hindex hready hcalm
  | call callee args =>
    obtain ⟨o,ho,hop,rfl⟩ := callee.exists_operand (callee.operand_examined hshaped.1)
    rw [ExprForm.value, hop]
    exact callValue_meets ho (argumentOperands_examined args hshaped.2) (written_argumentOperands args) hready hcalm
  | array elements =>
    rw [ExprForm.value]
    have hos := operands_examined elements hshaped
    have hexprs := map_expr_operands elements
    generalize operands elements = os at hos hexprs ⊢
    subst hexprs
    exact arrayValue_meets hos hready hcalm hexp
  | lambda params ret body => exact lambdaValue_meets (body.check_examined hshaped.2.2) hready hcalm hexp
  | paren e =>
    obtain ⟨o,ho,hop,rfl⟩ := e.exists_operand (e.operand_examined hshaped)
    rw [ExprForm.value, hop]
    exact (ho.value expected s hready hcalm hexp).mono fun _ _ _ ht => ht.paren

/-- As a place, a form is its storage location or an error. -/
theorem ExprForm.place_meets (form : ExprForm) (id : NodeId) (span : Span) (hshaped : form.Shaped)
    (hname : ∀ name, form ≠ .name name) (use : PlacePurpose) (s : State) (hready : Ready form.nodes s) (hcalm : Calm s) :
    Meets form.nodes s (form.place id span use) (GivesPlace ⟨id,span,form⟩) := by
  cases form with
  | paren e =>
    obtain ⟨o,ho,hop,rfl⟩ := e.exists_operand (e.operand_examined hshaped)
    rw [ExprForm.place, hop]
    exact (ho.place use s hready hcalm).mono fun _ _ _ hp => hp.paren
  | deref e =>
    obtain ⟨o,ho,hop,rfl⟩ := e.exists_operand (e.operand_examined hshaped)
    rw [ExprForm.place, hop]
    exact derefPlace_meets ho hready hcalm
  | index base index =>
    obtain ⟨ob,hbase,hob,rfl⟩ := base.exists_operand (base.operand_examined hshaped.1)
    obtain ⟨oi,hindex,hoi,rfl⟩ := index.exists_operand (index.operand_examined hshaped.2)
    rw [ExprForm.place, hob, hoi]
    exact indexPlace_meets hbase hindex hready hcalm use
  | name name => exact absurd rfl (hname name)
  | _ => exact .fail hready _ _

/-- So do those of the elements of an array. -/
lemma operands_examined : ∀ es : List Expr, exprsShaped es → ∀ o ∈ operands es, o.Examined
  | [], _ => by
    rw [operands]
    simp
  | e :: es, hshaped => List.forall_mem_cons.2 ⟨e.operand_examined hshaped.1,operands_examined es hshaped.2⟩

/-- So do those of the arguments of a call. -/
lemma argumentOperands_examined : ∀ as : List Argument, argumentsShaped as → ∀ o ∈ argumentOperands as, o.value.Examined
  | [], _ => by
    rw [argumentOperands]
    simp
  | ⟨_,value,_⟩ :: as, hshaped =>
    List.forall_mem_cons.2 ⟨value.operand_examined hshaped.1,argumentOperands_examined as hshaped.2⟩

lemma LambdaBody.check_examined : ∀ body : LambdaBody, body.Shaped → body.Examined body.check
  | .expr e, hshaped => by
    have h := exprBody_examined (e.operand_examined hshaped)
    rw [e.expr_operand] at h
    simpa only [LambdaBody.check] using h
  | .block b, hshaped => by
    simpa only [LambdaBody.check] using blockBody_examined (b.check_examines hshaped)

/-- A block hoists its declarations and then examines its statements one after the other. -/
theorem Block.check_examines : ∀ b : Block, b.Shaped → Examines b.nodes b.check
  | ⟨stmts,span⟩, hshaped => by
    rw [Block.nodes, Block.check, checkStmts_eq_forM, stmtNodes_eq_flatMap]
    exact hoisted_examines (.refl _) (stmts_examined stmts hshaped)

lemma stmts_examined : ∀ ss : List Stmt, stmtsShaped ss → ∀ st ∈ ss, st.Examined
  | [], _ => by simp
  | s :: ss, hshaped => List.forall_mem_cons.2 ⟨s.examined hshaped.1,stmts_examined ss hshaped.2⟩

/-- Every statement is examined by the rule of its form. -/
theorem Stmt.examined (st : Stmt) (hshaped : st.Shaped) : st.Examined := by
  obtain ⟨span,form⟩ := st
  cases form with
  | decl d => exact d.examined hshaped
  | assign target value =>
    have h := assignStmt_checks (target.operand_examined hshaped.1) (value.operand_examined hshaped.2)
    rwa [target.expr_operand, value.expr_operand] at h
  | expr e =>
    have h := exprStmt_checks (e.operand_examined hshaped)
    rwa [e.expr_operand] at h
  | ret e =>
    cases e with
    | none => exact bareReturnStmt_checks span
    | some e =>
      have h := returnStmt_checks (e.operand_examined hshaped)
      rwa [e.expr_operand] at h
  | cond c t e =>
    cases e with
    | none =>
      have h := ifStmt_checks (c.operand_examined hshaped.1) (t.check_examines hshaped.2)
      rwa [c.expr_operand] at h
    | some e =>
      obtain ⟨hc,ht,he,helse⟩ := hshaped
      have h := ifElseStmt_checks (c.operand_examined hc) (t.check_examines ht) (Stmt.checks_of_isElseBranch helse (e.examined he))
      rwa [c.expr_operand] at h
  | loop c b =>
    have h := ifStmt_checks (c.operand_examined hshaped.1) (b.check_examines hshaped.2)
    rwa [c.expr_operand] at h
  | block b => exact blockStmt_checks (b.check_examines hshaped)

/-- What a declaration is examined for: an initializer or a body. A constant is evaluated elsewhere. -/
lemma Decl.examined : ∀ d : Decl, d.Shaped → d.Examined
  | .var ⟨_,_,_,_,_,init,_⟩, hshaped => init.operand_examined hshaped.2
  | .const _, _ => trivial
  | .func ⟨_,_,_,_,_,body,_⟩, hshaped => body.check_examines hshaped.2.2

end

end Opal
