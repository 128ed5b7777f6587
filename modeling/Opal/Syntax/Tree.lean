import Opal.Source.Span
import Opal.Syntax.Operator

/-!
# Syntax trees

Modules as they are written. Every expression and every declaration carries a number of its own;
every node carries the span of the source text it was read from.
-/

namespace Opal

/-- The number of an expression or declaration in its module. -/
abbrev NodeId := Nat

mutual

structure TypeExpr where
  span : Span
  form : TypeForm

inductive TypeForm where
  | named (name : String)
  /-- An array type `[element, size]`. -/
  | array (element : TypeExpr) (size : Expr)
  /-- A reference type `^target` or `^mut target`. -/
  | reference (mutable : Bool) (target : TypeExpr)
  /-- A function type `def(params) -> ret`. -/
  | function (params : List TypeExpr) (ret : Option TypeExpr)

structure Expr where
  id : NodeId
  span : Span
  form : ExprForm

inductive ExprForm where
  /-- An integer literal, as it is spelled. -/
  | int (text : String)
  | bool (value : Bool)
  | char (value : Char)
  | string (value : String)
  | name (name : String)
  | binary (op : BinaryOp) (left right : Expr)
  | unary (op : UnaryOp) (operand : Expr)
  | addressOf (operand : Expr)
  | deref (operand : Expr)
  | index (base index : Expr)
  | call (callee : Expr) (args : List Argument)
  | array (elements : List Expr)
  | lambda (params : List LambdaParam) (ret : Option TypeExpr) (body : LambdaBody)
  | paren (inner : Expr)

/-- An argument of a call, which may name the parameter it is for. -/
structure Argument where
  name : Option String
  value : Expr
  span : Span

/-- A parameter of a lambda, whose type may be left out. -/
structure LambdaParam where
  name : String
  type : Option TypeExpr
  span : Span

inductive LambdaBody where
  | expr (value : Expr)
  | block (block : Block)

structure Block where
  stmts : List Stmt
  span : Span

structure Stmt where
  span : Span
  form : StmtForm

inductive StmtForm where
  | decl (decl : Decl)
  | assign (target value : Expr)
  | expr (value : Expr)
  | ret (value : Option Expr)
  | cond (condition : Expr) (thenBlock : Block) (elseBranch : Option Stmt)
  | loop (condition : Expr) (body : Block)
  | block (block : Block)

inductive Decl where
  | var (decl : VarDecl)
  | const (decl : ConstDecl)
  | func (decl : FunDecl)

structure VarDecl where
  id : NodeId
  name : String
  nameSpan : Span
  mutable : Bool
  type : Option TypeExpr
  init : Expr
  span : Span

structure ConstDecl where
  id : NodeId
  name : String
  nameSpan : Span
  type : Option TypeExpr
  value : Expr
  span : Span

structure FunDecl where
  id : NodeId
  name : String
  nameSpan : Span
  params : List Param
  ret : Option TypeExpr
  body : Block
  span : Span

/-- A parameter of a function. An anonymous parameter is bound by position only. -/
structure Param where
  name : String
  anonymous : Bool
  mutable : Bool
  type : TypeExpr
  span : Span

end

/-- A module: its declarations in source order. -/
structure Module where
  decls : List Decl
  span : Span

namespace Decl

def id : Decl → NodeId
  | var d => d.id
  | const d => d.id
  | func d => d.id

def name : Decl → String
  | var d => d.name
  | const d => d.name
  | func d => d.name

def nameSpan : Decl → Span
  | var d => d.nameSpan
  | const d => d.nameSpan
  | func d => d.nameSpan

def span : Decl → Span
  | var d => d.span
  | const d => d.span
  | func d => d.span

end Decl

def Stmt.decl? (s : Stmt) : Option Decl :=
  match s.form with
  | .decl i => some i
  | _ => none

def Block.decls (b : Block) : List Decl :=
  b.stmts.filterMap Stmt.decl?

mutual

/-- An expression without the parentheses around it. -/
def Expr.withoutParens : Expr → Expr
  | ⟨id,span,form⟩ => form.withoutParensAt id span

def ExprForm.withoutParensAt (id : NodeId) (span : Span) : ExprForm → Expr
  | .paren inner => inner.withoutParens
  | form => ⟨id,span,form⟩

end

end Opal
