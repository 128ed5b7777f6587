import Opal.Syntax.Tree

/-!
# The constructs of a syntax tree

Everything in a syntax tree that carries a place in the source, as one type, with its children in source order.
-/

namespace Opal

/-! ### Lists of parts -/

section

variable {α β : Type} {f : α → β} {g : α → List β} {F : List α → List β} {P : α → Prop} {Q : List α → Prop}

/-- A function that treats the parts one after the other treats each by itself. -/
theorem eq_map_of_cons (hnil : F [] = []) (hcons : ∀ a as, F (a :: as) = f a :: F as) (as : List α) : F as = as.map f := by
  induction as with
  | nil => exact hnil
  | cons a as ih => rw [hcons, ih, List.map_cons]

theorem eq_flatMap_of_cons (hnil : F [] = []) (hcons : ∀ a as, F (a :: as) = g a ++ F as) (as : List α) :
    F as = as.flatMap g := by
  induction as with
  | nil => exact hnil
  | cons a as ih => rw [hcons, ih, List.flatMap_cons]

theorem iff_forall_of_cons (hnil : Q []) (hcons : ∀ a as, Q (a :: as) ↔ P a ∧ Q as) (as : List α) : Q as ↔ ∀ a ∈ as, P a := by
  induction as with
  | nil => exact iff_of_true hnil (List.forall_mem_nil P)
  | cons a as ih => rw [hcons, ih, List.forall_mem_cons]

end

/-! ### Facts about all kinds of trees -/

section

variable (type : TypeExpr → Prop) (typeForm : TypeForm → Prop) (optionalType : Option TypeExpr → Prop)
  (types : List TypeExpr → Prop) (expr : Expr → Prop) (exprForm : ExprForm → Prop) (lambdaBody : LambdaBody → Prop)
  (block : Block → Prop) (stmts : List Stmt → Prop) (stmt : Stmt → Prop) (stmtForm : StmtForm → Prop) (decl : Decl → Prop)
  (funDecl : FunDecl → Prop) (params : List Param → Prop) (param : Param → Prop) (constDecl : ConstDecl → Prop)
  (varDecl : VarDecl → Prop) (lambdaParams : List LambdaParam → Prop) (lambdaParam : LambdaParam → Prop)
  (exprs : List Expr → Prop) (arguments : List Argument → Prop) (argument : Argument → Prop)

/-- What holds of each kind of tree. -/
structure ForTrees : Prop where
  type : ∀ x, type x
  typeForm : ∀ x, typeForm x
  optionalType : ∀ x, optionalType x
  types : ∀ x, types x
  expr : ∀ x, expr x
  exprForm : ∀ x, exprForm x
  lambdaBody : ∀ x, lambdaBody x
  block : ∀ x, block x
  stmts : ∀ x, stmts x
  stmt : ∀ x, stmt x
  stmtForm : ∀ x, stmtForm x
  decl : ∀ x, decl x
  funDecl : ∀ x, funDecl x
  params : ∀ x, params x
  param : ∀ x, param x
  constDecl : ∀ x, constDecl x
  varDecl : ∀ x, varDecl x
  lambdaParams : ∀ x, lambdaParams x
  lambdaParam : ∀ x, lambdaParam x
  exprs : ∀ x, exprs x
  arguments : ∀ x, arguments x
  argument : ∀ x, argument x

theorem ForTrees.of_and (h : (∀ x, type x) ∧ (∀ x, typeForm x) ∧ (∀ x, optionalType x) ∧ (∀ x, types x) ∧ (∀ x, expr x) ∧
    (∀ x, exprForm x) ∧ (∀ x, lambdaBody x) ∧ (∀ x, block x) ∧ (∀ x, stmts x) ∧ (∀ x, stmt x) ∧ (∀ x, stmtForm x) ∧
    (∀ x, decl x) ∧ (∀ x, funDecl x) ∧ (∀ x, params x) ∧ (∀ x, param x) ∧ (∀ x, constDecl x) ∧ (∀ x, varDecl x) ∧
    (∀ x, lambdaParams x) ∧ (∀ x, lambdaParam x) ∧ (∀ x, exprs x) ∧ (∀ x, arguments x) ∧ ∀ x, argument x) :
    ForTrees type typeForm optionalType types expr exprForm lambdaBody block stmts stmt stmtForm decl funDecl params param
      constDecl varDecl lambdaParams lambdaParam exprs arguments argument := by
  constructor <;> simp [h]

end

/-! ### Constructs -/

/-- Something in a syntax tree that carries a place. -/
inductive Construct where
  /-- The name that a declaration introduces. -/
  | name (text : String) (span : Span)
  | type (t : TypeExpr)
  | expr (e : Expr)
  | argument (a : Argument)
  | lambdaParam (p : LambdaParam)
  | param (p : Param)
  | block (b : Block)
  | stmt (s : Stmt)
  | decl (d : Decl)

def optionalConstruct (t : Option TypeExpr) : List Construct :=
  t.toList.map .type

def TypeForm.children : TypeForm → List Construct
  | .named _ => []
  | .array element size => [.type element, .expr size]
  | .reference _ target => [.type target]
  | .function params ret => params.map .type ++ optionalConstruct ret

def LambdaBody.construct : LambdaBody → Construct
  | .expr e => .expr e
  | .block b => .block b

def ExprForm.children : ExprForm → List Construct
  | .int _ | .bool _ | .char _ | .string _ | .name _ => []
  | .unary _ e | .addressOf e | .deref e | .paren e => [.expr e]
  | .binary _ l r => [.expr l, .expr r]
  | .index base i => [.expr base, .expr i]
  | .call callee args => .expr callee :: args.map .argument
  | .array elements => elements.map .expr
  | .lambda params ret body => params.map .lambdaParam ++ (optionalConstruct ret ++ [body.construct])

def StmtForm.children : StmtForm → List Construct
  | .decl d => [.decl d]
  | .assign target value => [.expr target, .expr value]
  | .expr e => [.expr e]
  | .ret e => e.toList.map .expr
  | .cond c t e => .expr c :: .block t :: e.toList.map .stmt
  | .loop c b => [.expr c, .block b]
  | .block b => [.block b]

def Decl.children : Decl → List Construct
  | .var d => .name d.name d.nameSpan :: (optionalConstruct d.type ++ [.expr d.init])
  | .const d => .name d.name d.nameSpan :: (optionalConstruct d.type ++ [.expr d.value])
  | .func d => .name d.name d.nameSpan :: (d.params.map .param ++ (optionalConstruct d.ret ++ [.block d.body]))

namespace Construct

def span : Construct → Span
  | name _ span => span
  | type t => t.span
  | expr e => e.span
  | argument a => a.span
  | lambdaParam p => p.span
  | param p => p.span
  | block b => b.span
  | stmt s => s.span
  | decl d => d.span

def children : Construct → List Construct
  | name .. => []
  | type t => t.form.children
  | expr e => e.form.children
  | argument a => [.expr a.value]
  | lambdaParam p => optionalConstruct p.type
  | param p => [.type p.type]
  | block b => b.stmts.map .stmt
  | stmt s => s.form.children
  | decl d => d.children

/-- The text that a construct stores, if it is nothing but a text: a name or an integer literal. -/
def text? : Construct → Option String
  | name text _ | type ⟨_,.named text⟩ | expr ⟨_,_,.int text⟩ | expr ⟨_,_,.name text⟩ => some text
  | _ => none

theorem sizeOf_lt_of_mem_children {x y : Construct} (h : y ∈ x.children) : sizeOf y < sizeOf x := by
  have hbody (b : LambdaBody) : sizeOf b.construct ≤ 1 + sizeOf b := by cases b <;> simp +arith [LambdaBody.construct]
  rcases x with _ | ⟨_,_ | _⟩ | ⟨_,_,_ | _⟩ | ⟨_,_⟩ | ⟨_,_⟩ | ⟨_,_⟩ | ⟨_,_⟩ | ⟨_,_ | _⟩ | (⟨_,_⟩ | ⟨_,_⟩ | ⟨_,_⟩)
  all_goals
    simp [children, TypeForm.children, ExprForm.children, StmtForm.children, Decl.children, optionalConstruct] at h ⊢
  all_goals grind [name.sizeOf_spec, type.sizeOf_spec, expr.sizeOf_spec, argument.sizeOf_spec, lambdaParam.sizeOf_spec,
    param.sizeOf_spec, block.sizeOf_spec, stmt.sizeOf_spec, decl.sizeOf_spec, Option.some.sizeOf_spec,
    → List.sizeOf_lt_of_mem]

/-- What holds of a construct if it holds of its children holds of all constructs. -/
theorem induction {P : Construct → Prop} (h : ∀ x, (∀ y ∈ x.children, P y) → P x) (x : Construct) : P x :=
  h x fun y _ => induction h y
termination_by sizeOf x
decreasing_by exact sizeOf_lt_of_mem_children ‹_›

/-- `P` holds of the place of a construct and of all places inside of it. -/
inductive Everywhere (P : Span → Prop) : Construct → Prop where
  | mk {x : Construct} (h : P x.span) (hs : ∀ y ∈ x.children, Everywhere P y) : Everywhere P x

namespace Everywhere

variable {P : Span → Prop} {x : Construct}

theorem here (h : x.Everywhere P) : P x.span := by
  cases h
  assumption

theorem inside (h : x.Everywhere P) : ∀ y ∈ x.children, y.Everywhere P := by
  cases h
  assumption

theorem of_forall (h : ∀ a, P a) (x : Construct) : x.Everywhere P :=
  induction (fun _ ih => .mk (h _) ih) x

end Everywhere

end Construct

end Opal
