import Opal.Syntax.Escape
import Opal.Syntax.Tree
import Opal.Token.Scan

/-!
# Spelling

The tokens that a syntax tree is written with, in source order. Lists are written without a comma at
the end, and characters in literals are written as escapes wherever there is one.
-/

namespace Opal

/-- The token of an integer literal. -/
def Kind.ofLiteral (text : String) : Kind :=
  match text.toList with
  | '0' :: 'x' :: _ => .text .hex text
  | '0' :: 'b' :: _ => .text .binary text
  | _ => .text .decimal text

def Kind.ofBool (b : Bool) : Kind :=
  .keyword (if b then .trueK else .falseK)

def Kind.ofChar (c : Char) : Kind :=
  .text .char (Escape.literal '\'' [c])

def Kind.ofString (s : String) : Kind :=
  .text .string (Escape.literal '"' s.toList)

def UnaryOp.punct : UnaryOp → Punct
  | .neg => .minus
  | .not => .bang

def BinaryOp.punct : BinaryOp → Punct
  | .add => .plus
  | .sub => .minus
  | .mul => .star
  | .div => .slash
  | .rem => .percent
  | .and => .andAnd
  | .or => .orOr
  | .eq => .eqEq
  | .ne => .notEq
  | .lt => .lt
  | .le => .le
  | .gt => .gt
  | .ge => .ge

/-- Elements with commas between them. -/
def separated : List (List Kind) → List Kind
  | [] => []
  | [ks] => ks
  | ks :: rest => ks ++ [.punct .comma] ++ separated rest

/-- The keyword `k` if `present`. -/
def markedBy (k : Keyword) (present : Bool) : List Kind :=
  if present then [.keyword k] else []

def parenthesized (elements : List (List Kind)) : List Kind :=
  [.punct .lparen] ++ separated elements ++ [.punct .rparen]

def bracketed (elements : List (List Kind)) : List Kind :=
  [.punct .lbracket] ++ separated elements ++ [.punct .rbracket]

mutual

/-- The tokens of a written type. -/
def TypeExpr.spelling : TypeExpr → List Kind
  | ⟨_,form⟩ => form.spelling

def TypeForm.spelling : TypeForm → List Kind
  | .named name => [.ofWord name]
  | .array element size => bracketed [element.spelling, size.spelling]
  | .reference mutable target => [.punct .caret] ++ markedBy .mutK mutable ++ target.spelling
  | .function params ret =>
    [.keyword .defK] ++ parenthesized (typeSpellings params) ++ typeAfter .arrow ret

def typeSpellings : List TypeExpr → List (List Kind)
  | [] => []
  | t :: ts => t.spelling :: typeSpellings ts

/-- The tokens of a written type after its mark, if it is not left out. -/
def typeAfter (mark : Punct) : Option TypeExpr → List Kind
  | none => []
  | some t => [.punct mark] ++ t.spelling

/-- The tokens of an expression. -/
def Expr.spelling : Expr → List Kind
  | ⟨_,_,form⟩ => form.spelling

def ExprForm.spelling : ExprForm → List Kind
  | .int text => [.ofLiteral text]
  | .bool b => [.ofBool b]
  | .char c => [.ofChar c]
  | .string s => [.ofString s]
  | .name name => [.ofWord name]
  | .binary op l r => l.spelling ++ [.punct op.punct] ++ r.spelling
  | .unary op e => [.punct op.punct] ++ e.spelling
  | .addressOf e => [.punct .amp] ++ e.spelling
  | .deref e => e.spelling ++ [.punct .caret]
  | .index base index => base.spelling ++ bracketed [index.spelling]
  | .call callee args => callee.spelling ++ parenthesized (argumentSpellings args)
  | .array elements => bracketed (exprSpellings elements)
  | .lambda params ret body =>
    parenthesized (lambdaParamSpellings params) ++ typeAfter .arrow ret ++ [.punct .fatArrow] ++ body.spelling
  | .paren e => parenthesized [e.spelling]

def exprSpellings : List Expr → List (List Kind)
  | [] => []
  | e :: es => e.spelling :: exprSpellings es

def Argument.spelling : Argument → List Kind
  | ⟨none,value,_⟩ => value.spelling
  | ⟨some name,value,_⟩ => [.ofWord name, .punct .colon] ++ value.spelling

def argumentSpellings : List Argument → List (List Kind)
  | [] => []
  | a :: as => a.spelling :: argumentSpellings as

def LambdaParam.spelling : LambdaParam → List Kind
  | ⟨name,type,_⟩ => [.ofWord name] ++ typeAfter .colon type

def lambdaParamSpellings : List LambdaParam → List (List Kind)
  | [] => []
  | p :: ps => p.spelling :: lambdaParamSpellings ps

def LambdaBody.spelling : LambdaBody → List Kind
  | .expr e => e.spelling
  | .block b => b.spelling

def Block.spelling : Block → List Kind
  | ⟨stmts,_⟩ => [.punct .lbrace] ++ stmtSpellings stmts ++ [.punct .rbrace]

def stmtSpellings : List Stmt → List Kind
  | [] => []
  | s :: ss => s.spelling ++ stmtSpellings ss

def Stmt.spelling : Stmt → List Kind
  | ⟨_,form⟩ => form.spelling

def StmtForm.spelling : StmtForm → List Kind
  | .decl d => d.spelling
  | .assign target value =>
    target.spelling ++ [.punct .assign] ++ value.spelling ++ [.punct .semi]
  | .expr e => e.spelling ++ [.punct .semi]
  | .ret none => [.keyword .returnK, .punct .semi]
  | .ret (some e) => [.keyword .returnK] ++ e.spelling ++ [.punct .semi]
  | .cond c t none => [.keyword .ifK] ++ c.spelling ++ t.spelling
  | .cond c t (some e) =>
    [.keyword .ifK] ++ c.spelling ++ t.spelling ++ [.keyword .elseK] ++ e.spelling
  | .loop c b => [.keyword .whileK] ++ c.spelling ++ b.spelling
  | .block b => b.spelling

def Decl.spelling : Decl → List Kind
  | .var d => d.spelling
  | .const d => d.spelling
  | .func d => d.spelling

def VarDecl.spelling : VarDecl → List Kind
  | ⟨_,name,_,mutable,type,init,_⟩ =>
    [.keyword .letK] ++ markedBy .mutK mutable ++ [.ofWord name] ++ typeAfter .colon type ++
      [.punct .assign] ++ init.spelling ++ [.punct .semi]

def ConstDecl.spelling : ConstDecl → List Kind
  | ⟨_,name,_,type,value,_⟩ =>
    [.keyword .constK, .ofWord name] ++ typeAfter .colon type ++ [.punct .assign] ++ value.spelling ++ [.punct .semi]

def FunDecl.spelling : FunDecl → List Kind
  | ⟨_,name,_,params,ret,body,_⟩ =>
    [.keyword .defK, .ofWord name] ++ parenthesized (paramSpellings params) ++ typeAfter .arrow ret ++ body.spelling

def Param.spelling : Param → List Kind
  | ⟨name,anonymous,mutable,type,_⟩ =>
    markedBy .anonK anonymous ++ markedBy .mutK mutable ++ [.ofWord name, .punct .colon] ++ type.spelling

def paramSpellings : List Param → List (List Kind)
  | [] => []
  | p :: ps => p.spelling :: paramSpellings ps

end

attribute [simp] TypeExpr.spelling TypeForm.spelling typeSpellings typeAfter Expr.spelling ExprForm.spelling
  exprSpellings Argument.spelling argumentSpellings LambdaParam.spelling lambdaParamSpellings LambdaBody.spelling
  Block.spelling stmtSpellings Stmt.spelling StmtForm.spelling Decl.spelling VarDecl.spelling ConstDecl.spelling
  FunDecl.spelling Param.spelling paramSpellings

def Module.spelling (m : Module) : List Kind :=
  m.decls.flatMap Decl.spelling

/-- A module as source text, with a space between any two tokens. -/
def Module.text (m : Module) : String :=
  " ".intercalate (m.spelling.map Kind.display)

end Opal
