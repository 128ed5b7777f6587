import Opal.Proofs.Nodes
import Opal.Syntax.Grammar

/-!
# The shape of trees that were read

In a tree that was read from a source text, what follows an `else` is a further conditional or a block.
-/

namespace Opal

/-- Whether a statement may stand after `else`. -/
def Stmt.isElseBranch (s : Stmt) : Bool :=
  match s.form with
  | .cond .. | .block _ => true
  | _ => false

mutual

/-- Every `else` in a written type is followed by a conditional or a block. -/
def TypeExpr.Shaped : TypeExpr → Prop
  | ⟨_,form⟩ => form.Shaped

def TypeForm.Shaped : TypeForm → Prop
  | .named _ => True
  | .array element size => element.Shaped ∧ size.Shaped
  | .reference _ target => target.Shaped
  | .function params ret => typesShaped params ∧ optionalTypeShaped ret

def typesShaped : List TypeExpr → Prop
  | [] => True
  | t :: ts => t.Shaped ∧ typesShaped ts

def optionalTypeShaped : Option TypeExpr → Prop
  | none => True
  | some t => t.Shaped

/-- Every `else` in an expression is followed by a conditional or a block. -/
def Expr.Shaped : Expr → Prop
  | ⟨_,_,form⟩ => form.Shaped

def ExprForm.Shaped : ExprForm → Prop
  | .int _ | .bool _ | .char _ | .string _ | .name _ => True
  | .binary _ l r => l.Shaped ∧ r.Shaped
  | .unary _ e => e.Shaped
  | .addressOf e => e.Shaped
  | .deref e => e.Shaped
  | .index base index => base.Shaped ∧ index.Shaped
  | .call callee args => callee.Shaped ∧ argumentsShaped args
  | .array elements => exprsShaped elements
  | .lambda params ret body => lambdaParamsShaped params ∧ optionalTypeShaped ret ∧ body.Shaped
  | .paren e => e.Shaped

def exprsShaped : List Expr → Prop
  | [] => True
  | e :: es => e.Shaped ∧ exprsShaped es

def Argument.Shaped : Argument → Prop
  | ⟨_,value,_⟩ => value.Shaped

def argumentsShaped : List Argument → Prop
  | [] => True
  | a :: as => a.Shaped ∧ argumentsShaped as

def LambdaParam.Shaped : LambdaParam → Prop
  | ⟨_,type,_⟩ => optionalTypeShaped type

def lambdaParamsShaped : List LambdaParam → Prop
  | [] => True
  | p :: ps => p.Shaped ∧ lambdaParamsShaped ps

def LambdaBody.Shaped : LambdaBody → Prop
  | .expr e => e.Shaped
  | .block b => b.Shaped

def Block.Shaped : Block → Prop
  | ⟨stmts,_⟩ => stmtsShaped stmts

def stmtsShaped : List Stmt → Prop
  | [] => True
  | s :: ss => s.Shaped ∧ stmtsShaped ss

def Stmt.Shaped : Stmt → Prop
  | ⟨_,form⟩ => form.Shaped

def StmtForm.Shaped : StmtForm → Prop
  | .decl d => d.Shaped
  | .assign target value => target.Shaped ∧ value.Shaped
  | .expr e => e.Shaped
  | .ret none => True
  | .ret (some e) => e.Shaped
  | .cond c t none => c.Shaped ∧ t.Shaped
  | .cond c t (some e) => c.Shaped ∧ t.Shaped ∧ e.Shaped ∧ e.isElseBranch = true
  | .loop c b => c.Shaped ∧ b.Shaped
  | .block b => b.Shaped

def Decl.Shaped : Decl → Prop
  | .var d => d.Shaped
  | .const d => d.Shaped
  | .func d => d.Shaped

def VarDecl.Shaped : VarDecl → Prop
  | ⟨_,_,_,_,type,init,_⟩ => optionalTypeShaped type ∧ init.Shaped

def ConstDecl.Shaped : ConstDecl → Prop
  | ⟨_,_,_,type,value,_⟩ => optionalTypeShaped type ∧ value.Shaped

def FunDecl.Shaped : FunDecl → Prop
  | ⟨_,_,_,params,ret,body,_⟩ => paramsShaped params ∧ optionalTypeShaped ret ∧ body.Shaped

def Param.Shaped : Param → Prop
  | ⟨_,_,_,type,_⟩ => type.Shaped

def paramsShaped : List Param → Prop
  | [] => True
  | p :: ps => p.Shaped ∧ paramsShaped ps

end

attribute [simp] TypeExpr.Shaped TypeForm.Shaped typesShaped optionalTypeShaped Expr.Shaped ExprForm.Shaped exprsShaped
  Argument.Shaped argumentsShaped LambdaParam.Shaped lambdaParamsShaped LambdaBody.Shaped Block.Shaped stmtsShaped
  Stmt.Shaped StmtForm.Shaped Decl.Shaped VarDecl.Shaped ConstDecl.Shaped FunDecl.Shaped Param.Shaped paramsShaped

/-- Every `else` in a module is followed by a conditional or a block. -/
def Module.Shaped (m : Module) : Prop :=
  ∀ d ∈ m.decls, d.Shaped

lemma Module.exists_of_test (source : String) (test : Module → Bool) (h : (Module.parse source).toOption.any test = true) :
    ∃ m, Module.parse source = .ok m ∧ test m = true := by
  cases hm : Module.parse source with
  | ok m => exact ⟨m,rfl,by simpa [hm, Except.toOption] using h⟩
  | error e => simp [hm, Except.toOption] at h

def Node.isExpr (test : Expr → Bool) : Node → Bool
  | expr e => test e
  | decl _ => false

lemma exists_expr_of_any {N : List Node} {test : Expr → Bool}
    (h : N.any (Node.isExpr test) = true) : ∃ e, Node.expr e ∈ N ∧ test e = true := by
  obtain ⟨n,hn,htest⟩ := List.any_eq_true.1 h
  cases n with
  | expr e => exact ⟨e,hn,htest⟩
  | decl d => cases htest

end Opal
