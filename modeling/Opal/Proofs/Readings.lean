import Mathlib.Computability.Language
import Mathlib.Order.CompletePartialOrder
import Opal.Syntax.Spelling

/-!
# The token sequences that a tree can be read from

A list may end in a comma, and a character in a literal may be written in more than one way. All else about the tokens is
determined by the tree.
-/

namespace Opal

/-- The span reaches from the first token of the sequence to its last. -/
def Span.Covers (span : Span) (ts : List Token) : Prop :=
  ∃ t u, ts.head? = some t ∧ ts.getLast? = some u ∧ span = ⟨t.span.start,u.span.stop⟩

/-- A single token of the given kind. -/
def token (kind : Kind) : Language Token :=
  {ts | ∃ span, ts = [⟨kind,span⟩]}

/-- A single token of the given kind at the given place. -/
def tokenAt (kind : Kind) (span : Span) : Language Token :=
  {ts | ts = [⟨kind,span⟩]}

/-- A single token with a text that `read` reads as `a`. -/
def literal {α : Type} (cls : TextClass) (read : String → Except SyntaxCause α) (a : α) : Language Token :=
  {ts | ∃ text span, ts = [⟨.text cls text,span⟩] ∧ read text = .ok a}

/-- The keyword `k` if `present`. -/
def marked (k : Keyword) (present : Bool) : Language Token :=
  if present then token (.keyword k) else 1

def covering (span : Span) (l : Language Token) : Language Token :=
  {ts | ts ∈ l ∧ span.Covers ts}

/-- Elements with commas between them. After the last element there may be one more comma. -/
def listed : List (Language Token) → Language Token
  | [] => 1
  | [l] => l * (1 + token (.punct .comma))
  | l :: ls => l * (token (.punct .comma) * listed ls)

def inParens (ls : List (Language Token)) : Language Token :=
  token (.punct .lparen) * (listed ls * token (.punct .rparen))

def inBrackets (ls : List (Language Token)) : Language Token :=
  token (.punct .lbracket) * (listed ls * token (.punct .rbracket))

mutual

/-- The token sequences of a written type. -/
def TypeExpr.readings : TypeExpr → Language Token
  | ⟨span,form⟩ => covering span form.readings

def TypeForm.readings : TypeForm → Language Token
  | .named name => token (.ofWord name)
  | .array element size =>
    token (.punct .lbracket) * (element.readings * (token (.punct .comma) * (size.readings * token (.punct .rbracket))))
  | .reference mutable target => token (.punct .caret) * (marked .mutK mutable * target.readings)
  | .function params ret =>
    token (.keyword .defK) * (inParens (typeReadings params) * readingsAfter .arrow ret)

def typeReadings : List TypeExpr → List (Language Token)
  | [] => []
  | t :: ts => t.readings :: typeReadings ts

def readingsAfter (mark : Punct) : Option TypeExpr → Language Token
  | none => 1
  | some t => token (.punct mark) * t.readings

/-- The token sequences of an expression. -/
def Expr.readings : Expr → Language Token
  | ⟨_,span,form⟩ => covering span form.readings

def ExprForm.readings : ExprForm → Language Token
  | .int text => token (.ofLiteral text)
  | .bool b => token (.ofBool b)
  | .char c => literal .char Escape.character c
  | .string s => literal .string Escape.string s
  | .name name => token (.ofWord name)
  | .binary op l r => l.readings * (token (.punct op.punct) * r.readings)
  | .unary op e => token (.punct op.punct) * e.readings
  | .addressOf e => token (.punct .amp) * e.readings
  | .deref e => e.readings * token (.punct .caret)
  | .index base index =>
    base.readings * (token (.punct .lbracket) * (index.readings * token (.punct .rbracket)))
  | .call callee args => callee.readings * inParens (argumentReadings args)
  | .array elements => inBrackets (exprReadings elements)
  | .lambda params ret body =>
    inParens (lambdaParamReadings params) * (readingsAfter .arrow ret * (token (.punct .fatArrow) * body.readings))
  | .paren e => token (.punct .lparen) * (e.readings * token (.punct .rparen))

def exprReadings : List Expr → List (Language Token)
  | [] => []
  | e :: es => e.readings :: exprReadings es

def Argument.readings : Argument → Language Token
  | ⟨none,value,span⟩ => covering span value.readings
  | ⟨some name,value,span⟩ =>
    covering span (token (.ofWord name) * (token (.punct .colon) * value.readings))

def argumentReadings : List Argument → List (Language Token)
  | [] => []
  | a :: as => a.readings :: argumentReadings as

def LambdaParam.readings : LambdaParam → Language Token
  | ⟨name,type,span⟩ => covering span (token (.ofWord name) * readingsAfter .colon type)

def lambdaParamReadings : List LambdaParam → List (Language Token)
  | [] => []
  | p :: ps => p.readings :: lambdaParamReadings ps

def LambdaBody.readings : LambdaBody → Language Token
  | .expr e => e.readings
  | .block b => b.readings

def Block.readings : Block → Language Token
  | ⟨stmts,span⟩ =>
    covering span (token (.punct .lbrace) * (stmtReadings stmts * token (.punct .rbrace)))

def stmtReadings : List Stmt → Language Token
  | [] => 1
  | s :: ss => s.readings * stmtReadings ss

def Stmt.readings : Stmt → Language Token
  | ⟨span,form⟩ => covering span form.readings

def StmtForm.readings : StmtForm → Language Token
  | .decl d => d.readings
  | .assign target value =>
    target.readings * (token (.punct .assign) * (value.readings * token (.punct .semi)))
  | .expr e => e.readings * token (.punct .semi)
  | .ret none => token (.keyword .returnK) * token (.punct .semi)
  | .ret (some e) => token (.keyword .returnK) * (e.readings * token (.punct .semi))
  | .cond c t none => token (.keyword .ifK) * (c.readings * t.readings)
  | .cond c t (some e) =>
    token (.keyword .ifK) * (c.readings * (t.readings * (token (.keyword .elseK) * e.readings)))
  | .loop c b => token (.keyword .whileK) * (c.readings * b.readings)
  | .block b => b.readings

def Decl.readings : Decl → Language Token
  | .var d => d.readings
  | .const d => d.readings
  | .func d => d.readings

def VarDecl.readings : VarDecl → Language Token
  | ⟨_,name,nameSpan,mutable,type,init,span⟩ =>
    covering span (token (.keyword .letK) * (marked .mutK mutable * (tokenAt (.ofWord name) nameSpan *
        (readingsAfter .colon type * (token (.punct .assign) * (init.readings * token (.punct .semi)))))))

def ConstDecl.readings : ConstDecl → Language Token
  | ⟨_,name,nameSpan,type,value,span⟩ =>
    covering span (token (.keyword .constK) * (tokenAt (.ofWord name) nameSpan *
        (readingsAfter .colon type * (token (.punct .assign) * (value.readings * token (.punct .semi))))))

def FunDecl.readings : FunDecl → Language Token
  | ⟨_,name,nameSpan,params,ret,body,span⟩ =>
    covering span (token (.keyword .defK) * (tokenAt (.ofWord name) nameSpan *
        (inParens (paramReadings params) * (readingsAfter .arrow ret * body.readings))))

def Param.readings : Param → Language Token
  | ⟨name,anonymous,mutable,type,span⟩ =>
    covering span (marked .anonK anonymous * (marked .mutK mutable *
        (token (.ofWord name) * (token (.punct .colon) * type.readings))))

def paramReadings : List Param → List (Language Token)
  | [] => []
  | p :: ps => p.readings :: paramReadings ps

end

attribute [simp] TypeExpr.readings TypeForm.readings typeReadings readingsAfter Expr.readings ExprForm.readings exprReadings
  Argument.readings argumentReadings LambdaParam.readings lambdaParamReadings LambdaBody.readings Block.readings
  stmtReadings Stmt.readings StmtForm.readings Decl.readings VarDecl.readings ConstDecl.readings FunDecl.readings
  Param.readings paramReadings

def declReadings : List Decl → Language Token
  | [] => 1
  | d :: ds => d.readings * declReadings ds

/-- The token sequences of a module. -/
def Module.readings (m : Module) : Language Token :=
  declReadings m.decls

end Opal
