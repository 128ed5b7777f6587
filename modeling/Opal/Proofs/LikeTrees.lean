import Mathlib.Data.List.Forall2
import Opal.Proofs.Coverage
import Opal.Proofs.MovedTrees

/-!
# Trees that are alike

Two syntax trees that differ in the places of their parts; the second may lack parentheses of the first. A likeness says which
places correspond, and which tables of types do.
-/

namespace Opal

open List

/-- What corresponds to what, where two trees are alike. -/
structure Likeness where
  /-- Whether the second tree is without parentheses. -/
  bare : Prop
  /-- The places of constructs that correspond to each other. -/
  span : Span → Span → Prop
  /-- The places of declared names that correspond to each other. -/
  name : Span → Span → Prop
  span_of_name : ∀ {a b}, name a b → span a b
  /-- Whether types have the same numbers. -/
  types : Prop
  /-- Whether names refer to the same bindings. -/
  references : Prop := True
  /-- What is recorded of the types of expressions. -/
  typeOf : Table Ty → Table Ty → Prop
  typeOf_congr : ∀ {T T' U' : Table Ty}, (∀ n : NodeId, T'[n]? = U'[n]?) → typeOf T T' → typeOf T U'

namespace Likeness

/-- The types of these nodes may be recorded on both sides. -/
def Both (L : Likeness) (i i' : NodeId) : Prop :=
  ∀ T T' t, L.typeOf T T' → L.typeOf (T.insert i t) (T'.insert i' t)

/-- The type of this node may be recorded on the first side alone. -/
def Alone (L : Likeness) (i : NodeId) : Prop :=
  ∀ T T' t, L.typeOf T T' → L.typeOf (T.insert i t) T'

end Likeness

/-- Of two lists, members are equal in the one where they are equal in the other. -/
def SamePattern (l l' : List NodeId) : Prop :=
  ∀ i j : Nat, l[i]? = l[j]? ↔ l'[i]? = l'[j]?

mutual

/-- Expressions that are alike. Their types may be recorded. -/
inductive Expr.Like (L : Likeness) : Expr → Expr → Prop where
  | node {id : NodeId} {span span' : Span} {form form' : ExprForm} (hspan : L.span span span')
    (hid : L.Both id id) (h : ExprForm.Like L form form') : Expr.Like L ⟨id,span,form⟩ ⟨id,span',form'⟩
  /-- The parentheses are left out. -/
  | unwrapped {id : NodeId} {span : Span} {e e' : Expr} (hbare : L.bare) (hspan : L.span span e'.span)
    (hid : L.Alone id) (h : Expr.Like L e e') : Expr.Like L ⟨id,span,.paren e⟩ e'

inductive ExprForm.Like (L : Likeness) : ExprForm → ExprForm → Prop where
  | int (text : String) : ExprForm.Like L (.int text) (.int text)
  | bool (b : Bool) : ExprForm.Like L (.bool b) (.bool b)
  | char (c : Char) : ExprForm.Like L (.char c) (.char c)
  | string (s : String) : ExprForm.Like L (.string s) (.string s)
  | name (name : String) : ExprForm.Like L (.name name) (.name name)
  | binary {l l' r r' : Expr} (op : BinaryOp) (hl : Expr.Like L l l') (hr : Expr.Like L r r') :
    ExprForm.Like L (.binary op l r) (.binary op l' r')
  /-- Of a negated literal the type of the whole operand is recorded, and of nothing inside of it. -/
  | negated {e e' : Expr} {text : String} (hlit : e.literal? = some text) (hlit' : e'.literal? = some text)
    (hid : L.Both e.id e'.id) : ExprForm.Like L (.unary .neg e) (.unary .neg e')
  | unary {e e' : Expr} (op : UnaryOp) (hlit : op = .neg → e.literal? = none) (h : Expr.Like L e e') :
    ExprForm.Like L (.unary op e) (.unary op e')
  | addressOf {e e' : Expr} (h : Expr.Like L e e') : ExprForm.Like L (.addressOf e) (.addressOf e')
  | deref {e e' : Expr} (h : Expr.Like L e e') : ExprForm.Like L (.deref e) (.deref e')
  | index {base base' index index' : Expr} (hbase : Expr.Like L base base') (hindex : Expr.Like L index index') :
    ExprForm.Like L (.index base index) (.index base' index')
  | call {callee callee' : Expr} {args args' : List Argument} (hcallee : Expr.Like L callee callee')
    (hargs : Forall₂ (Argument.Like L) args args') : ExprForm.Like L (.call callee args) (.call callee' args')
  | array {es es' : List Expr} (hes : Forall₂ (Expr.Like L) es es')
    (hids : SamePattern (es.map Expr.id) (es'.map Expr.id)) : ExprForm.Like L (.array es) (.array es')
  | lambda {params params' : List LambdaParam} {ret ret' : Option TypeExpr} {body body' : LambdaBody}
    (hparams : Forall₂ (LambdaParam.Like L) params params') (hret : Option.Rel (TypeExpr.Like L) ret ret')
    (hbody : LambdaBody.Like L body body') : ExprForm.Like L (.lambda params ret body) (.lambda params' ret' body')
  | paren {e e' : Expr} (hbare : ¬ L.bare) (h : Expr.Like L e e') : ExprForm.Like L (.paren e) (.paren e')

inductive Argument.Like (L : Likeness) : Argument → Argument → Prop where
  | mk {name : Option String} {value value' : Expr} {span span' : Span} (hspan : L.span span span')
    (h : Expr.Like L value value') : Argument.Like L ⟨name,value,span⟩ ⟨name,value',span'⟩

inductive LambdaParam.Like (L : Likeness) : LambdaParam → LambdaParam → Prop where
  | mk {name : String} {type type' : Option TypeExpr} {span span' : Span} (hspan : L.name span span')
    (h : Option.Rel (TypeExpr.Like L) type type') : LambdaParam.Like L ⟨name,type,span⟩ ⟨name,type',span'⟩

inductive LambdaBody.Like (L : Likeness) : LambdaBody → LambdaBody → Prop where
  | expr {e e' : Expr} (h : Expr.Like L e e') : LambdaBody.Like L (.expr e) (.expr e')
  | block {b b' : Block} (h : Block.Like L b b') : LambdaBody.Like L (.block b) (.block b')

inductive TypeExpr.Like (L : Likeness) : TypeExpr → TypeExpr → Prop where
  | mk {span span' : Span} {form form' : TypeForm} (hspan : L.span span span') (h : TypeForm.Like L form form') :
    TypeExpr.Like L ⟨span,form⟩ ⟨span',form'⟩

inductive TypeForm.Like (L : Likeness) : TypeForm → TypeForm → Prop where
  | named (name : String) : TypeForm.Like L (.named name) (.named name)
  | array {element element' : TypeExpr} {size size' : Expr} (helement : TypeExpr.Like L element element')
    (hsize : Expr.Like L size size') : TypeForm.Like L (.array element size) (.array element' size')
  | reference {target target' : TypeExpr} (mutable : Bool) (h : TypeExpr.Like L target target') :
    TypeForm.Like L (.reference mutable target) (.reference mutable target')
  | function {params params' : List TypeExpr} {ret ret' : Option TypeExpr}
    (hparams : Forall₂ (TypeExpr.Like L) params params') (hret : Option.Rel (TypeExpr.Like L) ret ret') :
    TypeForm.Like L (.function params ret) (.function params' ret')

inductive Block.Like (L : Likeness) : Block → Block → Prop where
  | mk {stmts stmts' : List Stmt} (span span' : Span) (h : Forall₂ (Stmt.Like L) stmts stmts') :
    Block.Like L ⟨stmts,span⟩ ⟨stmts',span'⟩

inductive Stmt.Like (L : Likeness) : Stmt → Stmt → Prop where
  | mk {span span' : Span} {form form' : StmtForm} (hspan : L.span span span') (h : StmtForm.Like L form form') :
    Stmt.Like L ⟨span,form⟩ ⟨span',form'⟩

inductive StmtForm.Like (L : Likeness) : StmtForm → StmtForm → Prop where
  | decl {d d' : Decl} (h : Decl.Like L d d') : StmtForm.Like L (.decl d) (.decl d')
  | assign {target target' value value' : Expr} (htarget : Expr.Like L target target')
    (hvalue : Expr.Like L value value') : StmtForm.Like L (.assign target value) (.assign target' value')
  | expr {e e' : Expr} (h : Expr.Like L e e') : StmtForm.Like L (.expr e) (.expr e')
  | ret {value value' : Option Expr} (h : Option.Rel (Expr.Like L) value value') :
    StmtForm.Like L (.ret value) (.ret value')
  | cond {c c' : Expr} {t t' : Block} {e e' : Option Stmt} (hc : Expr.Like L c c') (ht : Block.Like L t t')
    (he : Option.Rel (Stmt.Like L) e e') : StmtForm.Like L (.cond c t e) (.cond c' t' e')
  | loop {c c' : Expr} {b b' : Block} (hc : Expr.Like L c c') (hb : Block.Like L b b') :
    StmtForm.Like L (.loop c b) (.loop c' b')
  | block {b b' : Block} (h : Block.Like L b b') : StmtForm.Like L (.block b) (.block b')

inductive Decl.Like (L : Likeness) : Decl → Decl → Prop where
  | var {d d' : VarDecl} (h : VarDecl.Like L d d') : Decl.Like L (.var d) (.var d')
  | const {d d' : ConstDecl} (h : ConstDecl.Like L d d') : Decl.Like L (.const d) (.const d')
  | func {d d' : FunDecl} (h : FunDecl.Like L d d') : Decl.Like L (.func d) (.func d')

inductive VarDecl.Like (L : Likeness) : VarDecl → VarDecl → Prop where
  | mk {id : NodeId} {name : String} {nameSpan nameSpan' : Span} {mutable : Bool} {type type' : Option TypeExpr}
    {init init' : Expr} (span span' : Span) (hname : L.name nameSpan nameSpan')
    (htype : Option.Rel (TypeExpr.Like L) type type') (hinit : Expr.Like L init init') :
    VarDecl.Like L ⟨id,name,nameSpan,mutable,type,init,span⟩ ⟨id,name,nameSpan',mutable,type',init',span'⟩

inductive ConstDecl.Like (L : Likeness) : ConstDecl → ConstDecl → Prop where
  | mk {id : NodeId} {name : String} {nameSpan nameSpan' : Span} {type type' : Option TypeExpr}
    {value value' : Expr} (span span' : Span) (hname : L.name nameSpan nameSpan')
    (htype : Option.Rel (TypeExpr.Like L) type type') (hvalue : Expr.Like L value value') :
    ConstDecl.Like L ⟨id,name,nameSpan,type,value,span⟩ ⟨id,name,nameSpan',type',value',span'⟩

inductive FunDecl.Like (L : Likeness) : FunDecl → FunDecl → Prop where
  | mk {id : NodeId} {name : String} {nameSpan nameSpan' : Span} {params params' : List Param}
    {ret ret' : Option TypeExpr} {body body' : Block} (span span' : Span) (hname : L.name nameSpan nameSpan')
    (hparams : Forall₂ (Param.Like L) params params') (hret : Option.Rel (TypeExpr.Like L) ret ret')
    (hbody : Block.Like L body body') :
    FunDecl.Like L ⟨id,name,nameSpan,params,ret,body,span⟩ ⟨id,name,nameSpan',params',ret',body',span'⟩

inductive Param.Like (L : Likeness) : Param → Param → Prop where
  | mk {name : String} {anonymous mutable : Bool} {type type' : TypeExpr} {span span' : Span}
    (hspan : L.name span span') (h : TypeExpr.Like L type type') :
    Param.Like L ⟨name,anonymous,mutable,type,span⟩ ⟨name,anonymous,mutable,type',span'⟩

end

/-! ## Expressions that are alike -/

lemma Expr.withoutParens_of_ne {e : Expr} (h : ∀ x, e.form ≠ .paren x) : e.withoutParens = e := by
  rcases e.withoutParens_cases with ⟨x,hform,-⟩ | ⟨hself,-⟩
  · exact absurd hform (h x)
  · exact hself

lemma Expr.withoutParens_withoutParens (e : Expr) : e.withoutParens.withoutParens = e.withoutParens := by
  rcases e.withoutParens_cases with ⟨x,hform,hwithout,-⟩ | ⟨hself,-⟩
  · have : sizeOf x < sizeOf e := by
      obtain ⟨id,span,form⟩ := e
      obtain rfl : form = .paren x := hform
      simp only [Expr.mk.sizeOf_spec, ExprForm.paren.sizeOf_spec]
      omega
    rw [hwithout]
    exact x.withoutParens_withoutParens
  · rw [hself, hself]
termination_by sizeOf e

lemma Expr.isContextual_of_literal? {e : Expr} {text : String} (h : e.literal? = some text) : e.isContextual = true := by
  obtain ⟨id,span,form⟩ := e
  cases form with
  | int => rw [Expr.isContextual, ExprForm.isContextual]
  | paren e => exact isContextual_of_literal? (e := e) h
  | _ => cases h

variable {L : Likeness}

mutual

lemma Expr.Like.isContextual_eq : ∀ {e e' : Expr}, e.Like L e' → e'.isContextual = e.isContextual
  | ⟨_,_,form⟩, e', h => by
    cases h with
    | node _ _ h => exact form.isContextual_eq_of_like h
    | unwrapped _ _ _ h => exact h.isContextual_eq

lemma ExprForm.isContextual_eq_of_like (form : ExprForm) {form' : ExprForm} (h : form.Like L form') :
    form'.isContextual = form.isContextual := by
  cases form with
  | binary op l r =>
    cases h with
    | binary _ hl hr => rw [ExprForm.isContextual, ExprForm.isContextual, hl.isContextual_eq, hr.isContextual_eq]
  | unary op e =>
    cases h with
    | negated hlit hlit' _ =>
      rw [ExprForm.isContextual, ExprForm.isContextual, Expr.isContextual_of_literal? hlit, Expr.isContextual_of_literal? hlit']
    | unary _ _ h =>
      cases op with
      | neg => rw [ExprForm.isContextual, ExprForm.isContextual, h.isContextual_eq]
      | not => simp [ExprForm.isContextual]
  | paren e =>
    cases h with
    | paren _ h => rw [ExprForm.isContextual, ExprForm.isContextual, h.isContextual_eq]
  | _ =>
    cases h
    simp [ExprForm.isContextual]

end

lemma Expr.Like.withoutParens : ∀ {e e' : Expr}, e.Like L e' → ∃ id span span' form form',
    e.withoutParens = ⟨id,span,form⟩ ∧ e'.withoutParens = ⟨id,span',form'⟩ ∧ L.span span span' ∧ L.Both id id ∧ form.Like L form'
  | ⟨id,span,form⟩, e', h => by
    cases h with
    | @node _ _ span' _ form' hspan hid h =>
      by_cases hparen : ∃ x, form = .paren x
      · obtain ⟨x,rfl⟩ := hparen
        cases h with
        | paren hbare h =>
          exact h.withoutParens
      · refine ⟨id,span,span',form,form',?_,?_,hspan,hid,h⟩
        · exact Expr.withoutParens_of_ne fun x hx => hparen ⟨x,hx⟩
        · refine Expr.withoutParens_of_ne fun x hx => hparen ?_
          obtain rfl : form' = .paren x := hx
          cases h with
          | paren => exact ⟨_,rfl⟩
    | unwrapped hbare hspan hid h =>
      exact h.withoutParens

lemma Expr.Like.literal?_eq {e e' : Expr} (h : e.Like L e') : e'.literal? = e.literal? := by
  obtain ⟨id,span,span',form,form',he,he',-,-,hform⟩ := h.withoutParens
  rw [literal?, literal?, he, he']
  cases hform <;> rfl

lemma Expr.Like.span {e e' : Expr} (h : e.Like L e') : L.span e.span e'.span := by
  cases h with
  | node hspan | unwrapped _ hspan => exact hspan

lemma TypeExpr.Like.span {t t' : TypeExpr} (h : t.Like L t') : L.span t.span t'.span := by
  cases h with
  | mk hspan => exact hspan

lemma Expr.Like.withoutParens_eq (hbare : L.bare) : ∀ {e e' : Expr}, e.Like L e' → e'.withoutParens = e'
  | ⟨_,_,form⟩, e', h => by
    cases h with
    | @node _ _ span' _ form' _ _ h =>
      refine Expr.withoutParens_of_ne fun x hx => ?_
      obtain rfl : form' = .paren x := hx
      cases h with
      | paren hnot => exact hnot hbare
    | unwrapped _ _ _ h => exact h.withoutParens_eq hbare

lemma Expr.Like.id_cases {e e' : Expr} (h : e.Like L e') :
    e.id = e'.id ∧ L.Both e.id e.id ∨ L.Alone e.id ∧ e'.withoutParens = e' := by
  cases h with
  | node _ hid => exact .inl ⟨rfl,hid⟩
  | unwrapped hbare _ hid h => exact .inr ⟨hid,h.withoutParens_eq hbare⟩

/-! ## Trees with other spans -/

lemma map_id_respanExprs (f : Span → Span) (es : List Expr) : (respanExprs f es).map Expr.id = es.map Expr.id := by
  induction es with
  | nil => rfl
  | cons e es ih =>
    obtain ⟨id,span,form⟩ := e
    exact congrArg (id :: ·) ih

/-- Nothing is left out, and the types of all expressions may be recorded. -/
structure WholeLikeness extends Likeness where
  kept : ¬ bare
  both : ∀ i, toLikeness.Both i i

/-- What stands at `a` corresponds to what stands where `f` says. -/
def WholeLikeness.Moves (L : WholeLikeness) (f : Span → Span) (a : Span) : Prop :=
  L.span a (f a) ∧ L.name a (f a)

section Moved

variable {L : WholeLikeness} {f : Span → Span}

mutual

lemma TypeExpr.like_respan (t : TypeExpr) (h : (Construct.type t).Everywhere (L.Moves f)) : t.Like L.toLikeness (t.respan f) := by
  obtain ⟨span,form⟩ := t
  refine .mk h.here.1 ?_
  replace h := h.inside
  cases form with
  | named name => exact .named name
  | array element size =>
    exact .array (element.like_respan (h _ (.head _))) (size.like_respan (h _ (.tail _ (.head _))))
  | reference mutable target => exact .reference mutable (target.like_respan (h _ (.head _)))
  | function params ret =>
    exact .function (types_like_respan params fun x hx => h x (mem_append_left _ hx))
      (optionalType_like_respan ret fun x hx => h x (mem_append_right _ hx))

lemma types_like_respan : ∀ ts : List TypeExpr, (∀ x ∈ ts.map Construct.type, x.Everywhere (L.Moves f)) →
    Forall₂ (TypeExpr.Like L.toLikeness) ts (respanTypes f ts)
  | [], _ => .nil
  | t :: ts, h => .cons (t.like_respan (h _ (.head _))) (types_like_respan ts fun x hx => h x (.tail _ hx))

lemma optionalType_like_respan : ∀ t : Option TypeExpr, (∀ x ∈ optionalConstruct t, x.Everywhere (L.Moves f)) →
    Option.Rel (TypeExpr.Like L.toLikeness) t (respanOptionalType f t)
  | none, _ => .none
  | some t, h => .some (t.like_respan (h _ (.head _)))

lemma Expr.like_respan (e : Expr) (h : (Construct.expr e).Everywhere (L.Moves f)) : e.Like L.toLikeness (e.respan f) := by
  obtain ⟨id,span,form⟩ := e
  refine .node h.here.1 (L.both id) ?_
  replace h := h.inside
  cases form with
  | int text => exact .int text
  | bool b => exact .bool b
  | char c => exact .char c
  | string s => exact .string s
  | name name => exact .name name
  | binary op l r => exact .binary op (l.like_respan (h _ (.head _))) (r.like_respan (h _ (.tail _ (.head _))))
  | unary op e =>
    have he := e.like_respan (h _ (.head _))
    cases op with
    | not => exact .unary .not nofun he
    | neg =>
      cases hlit : e.literal? with
      | some text =>
        obtain ⟨id,span,form⟩ := e
        exact .negated hlit (he.literal?_eq.trans hlit) (L.both id)
      | none => exact .unary .neg (fun _ => hlit) he
  | addressOf e => exact .addressOf (e.like_respan (h _ (.head _)))
  | deref e => exact .deref (e.like_respan (h _ (.head _)))
  | index base index =>
    exact .index (base.like_respan (h _ (.head _))) (index.like_respan (h _ (.tail _ (.head _))))
  | call callee args =>
    exact .call (callee.like_respan (h _ (.head _))) (arguments_like_respan args fun x hx => h x (.tail _ hx))
  | array elements => exact .array (exprs_like_respan elements h) fun i j => by rw [map_id_respanExprs]
  | lambda params ret body =>
    exact .lambda (lambdaParams_like_respan params fun x hx => h x (mem_append_left _ hx))
      (optionalType_like_respan ret fun x hx => h x (mem_append_right _ (mem_append_left _ hx)))
      (body.like_respan (h _ (mem_append_right _ (mem_append_right _ (.head _)))))
  | paren e => exact .paren L.kept (e.like_respan (h _ (.head _)))

lemma exprs_like_respan : ∀ es : List Expr, (∀ x ∈ es.map Construct.expr, x.Everywhere (L.Moves f)) →
    Forall₂ (Expr.Like L.toLikeness) es (respanExprs f es)
  | [], _ => .nil
  | e :: es, h => .cons (e.like_respan (h _ (.head _))) (exprs_like_respan es fun x hx => h x (.tail _ hx))

lemma arguments_like_respan : ∀ as : List Argument, (∀ x ∈ as.map Construct.argument, x.Everywhere (L.Moves f)) →
    Forall₂ (Argument.Like L.toLikeness) as (respanArguments f as)
  | [], _ => .nil
  | ⟨_,value,_⟩ :: as, h => .cons (.mk (h _ (.head _)).here.1 (value.like_respan ((h _ (.head _)).inside _ (.head _))))
    (arguments_like_respan as fun x hx => h x (.tail _ hx))

lemma lambdaParams_like_respan : ∀ ps : List LambdaParam, (∀ x ∈ ps.map Construct.lambdaParam, x.Everywhere (L.Moves f)) →
      Forall₂ (LambdaParam.Like L.toLikeness) ps (respanLambdaParams f ps)
  | [], _ => .nil
  | ⟨_,type,_⟩ :: ps, h => .cons (.mk (h _ (.head _)).here.2 (optionalType_like_respan type (h _ (.head _)).inside))
    (lambdaParams_like_respan ps fun x hx => h x (.tail _ hx))

lemma LambdaBody.like_respan :
    ∀ body : LambdaBody, body.construct.Everywhere (L.Moves f) → body.Like L.toLikeness (body.respan f)
  | .expr e, h => .expr (e.like_respan h)
  | .block b, h => .block (b.like_respan h)

lemma Block.like_respan : ∀ b : Block, (Construct.block b).Everywhere (L.Moves f) → b.Like L.toLikeness (b.respan f)
  | ⟨stmts,span⟩, h => .mk span (f span) (stmts_like_respan stmts h.inside)

lemma stmts_like_respan : ∀ ss : List Stmt, (∀ x ∈ ss.map Construct.stmt, x.Everywhere (L.Moves f)) →
    Forall₂ (Stmt.Like L.toLikeness) ss (respanStmts f ss)
  | [], _ => .nil
  | s :: ss, h => .cons (s.like_respan (h _ (.head _))) (stmts_like_respan ss fun x hx => h x (.tail _ hx))

lemma Stmt.like_respan (s : Stmt) (h : (Construct.stmt s).Everywhere (L.Moves f)) : s.Like L.toLikeness (s.respan f) := by
  obtain ⟨span,form⟩ := s
  refine .mk h.here.1 ?_
  replace h := h.inside
  cases form with
  | decl d => exact .decl (d.like_respan (h _ (.head _)))
  | assign target value =>
    exact .assign (target.like_respan (h _ (.head _))) (value.like_respan (h _ (.tail _ (.head _))))
  | expr e => exact .expr (e.like_respan (h _ (.head _)))
  | ret e =>
    cases e with
    | none => exact .ret .none
    | some e => exact .ret (.some (e.like_respan (h _ (.head _))))
  | cond c t e =>
    have hc := c.like_respan (h _ (.head _))
    have ht := t.like_respan (h _ (.tail _ (.head _)))
    cases e with
    | none => exact .cond hc ht .none
    | some e => exact .cond hc ht (.some (e.like_respan (h _ (.tail _ (.tail _ (.head _))))))
  | loop c b => exact .loop (c.like_respan (h _ (.head _))) (b.like_respan (h _ (.tail _ (.head _))))
  | block b => exact .block (b.like_respan (h _ (.head _)))

lemma Decl.like_respan : ∀ d : Decl, (Construct.decl d).Everywhere (L.Moves f) → d.Like L.toLikeness (d.respan f)
  | .var ⟨_,_,_,_,type,init,span⟩, h =>
    have hs := fun x hx => h.inside x (.tail _ hx)
    .var (.mk span (f span) (h.inside _ (.head _)).here.2 (optionalType_like_respan type fun x hx => hs x (mem_append_left _ hx))
      (init.like_respan (hs _ (mem_append_right _ (.head _)))))
  | .const ⟨_,_,_,type,value,span⟩, h =>
    have hs := fun x hx => h.inside x (.tail _ hx)
    .const (.mk span (f span) (h.inside _ (.head _)).here.2
      (optionalType_like_respan type fun x hx => hs x (mem_append_left _ hx))
      (value.like_respan (hs _ (mem_append_right _ (.head _)))))
  | .func ⟨_,_,_,params,ret,body,span⟩, h =>
    have hs := fun x hx => h.inside x (.tail _ hx)
    .func (.mk span (f span) (h.inside _ (.head _)).here.2 (params_like_respan params fun x hx => hs x (mem_append_left _ hx))
      (optionalType_like_respan ret fun x hx => hs x (mem_append_right _ (mem_append_left _ hx)))
      (body.like_respan (hs _ (mem_append_right _ (mem_append_right _ (.head _))))))

lemma params_like_respan : ∀ ps : List Param, (∀ x ∈ ps.map Construct.param, x.Everywhere (L.Moves f)) →
    Forall₂ (Param.Like L.toLikeness) ps (respanParams f ps)
  | [], _ => .nil
  | ⟨_,_,_,type,_⟩ :: ps, h =>
    .cons (.mk (h _ (.head _)).here.2 (type.like_respan ((h _ (.head _)).inside _ (.head _))))
      (params_like_respan ps fun x hx => h x (.tail _ hx))

end

end Moved

/-! ## Trees are like themselves -/

/-- Everything corresponds to itself. -/
structure SelfLikeness extends WholeLikeness where
  span_refl : ∀ a, span a a
  name_refl : ∀ a, name a a

section SelfLikeness

variable {L : SelfLikeness}

lemma SelfLikeness.everywhere (L : SelfLikeness) (x : Construct) : x.Everywhere (L.Moves fun a => a) :=
  .of_forall (fun a => ⟨L.span_refl a,L.name_refl a⟩) x

lemma TypeExpr.like_self (t : TypeExpr) : t.Like L.toLikeness t := by
  simpa only [respan_id.type] using t.like_respan (L.everywhere _)

lemma lambdaParams_like_self (ps : List LambdaParam) : Forall₂ (LambdaParam.Like L.toLikeness) ps ps := by
  simpa only [respan_id.lambdaParams] using lambdaParams_like_respan ps fun x _ => L.everywhere x

lemma Expr.like_self (e : Expr) : e.Like L.toLikeness e := by
  simpa only [respan_id.expr] using e.like_respan (L.everywhere _)

lemma ExprForm.like_self (form : ExprForm) : form.Like L.toLikeness form := by
  cases Expr.like_self (L := L) ⟨0,⟨0,0⟩,form⟩ with
  | node _ _ h => exact h
  | unwrapped hbare => exact absurd hbare L.kept

lemma Block.like_self (b : Block) : b.Like L.toLikeness b := by
  simpa only [respan_id.block] using b.like_respan (L.everywhere _)

lemma stmts_like_self (ss : List Stmt) : Forall₂ (Stmt.Like L.toLikeness) ss ss := by
  simpa only [respan_id.stmts] using stmts_like_respan ss fun x _ => L.everywhere x

lemma Decl.like_self (d : Decl) : d.Like L.toLikeness d := by
  simpa only [respan_id.decl] using d.like_respan (L.everywhere _)

end SelfLikeness

end Opal
