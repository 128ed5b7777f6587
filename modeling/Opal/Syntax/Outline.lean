import Opal.Report.Outline
import Opal.Syntax.Tree
import Opal.Text.Quoted
import Opal.Token.Scan

/-!
# Outlines of tokens and syntax trees

How tokens and syntax trees appear in a dump.
-/

namespace Opal

namespace Outline

def nat (n : Nat) : Outline :=
  .atom (toString n)

def bool (b : Bool) : Outline :=
  .atom (if b then "true" else "false")

/-- A text appears quoted. -/
def text (s : String) : Outline :=
  .atom (Quoted.string s)

def some (o : Outline) : Outline :=
  .tuple "Some" [o]

def none : Outline :=
  .atom "None"

def nodeId (id : NodeId) : Outline :=
  .tuple "NodeId" [nat id]

end Outline

def Span.outline (s : Span) : Outline :=
  .record "Span" [⟨"start",.nat s.start⟩, ⟨"end",.nat s.stop⟩]

/-- A token with a text of its own appears with it. -/
def Kind.outline : Kind → Outline
  | .text c t => .tuple c.name [.text t]
  | k => .atom k.name

def Token.outline (t : Token) : Outline :=
  .record "Token" [⟨"kind",t.kind.outline⟩, ⟨"span",t.span.outline⟩]

def BinaryOp.name : BinaryOp → String
  | .add => "Add"
  | .sub => "Sub"
  | .mul => "Mul"
  | .div => "Div"
  | .rem => "Rem"
  | .and => "And"
  | .or => "Or"
  | .eq => "Eq"
  | .ne => "Ne"
  | .lt => "Lt"
  | .le => "Le"
  | .gt => "Gt"
  | .ge => "Ge"

def UnaryOp.name : UnaryOp → String
  | .neg => "Neg"
  | .not => "Not"

mutual

/-- A node appears with its parts in the order in which they are written, and its span comes last. -/
def TypeExpr.outline : TypeExpr → Outline
  | ⟨span,form⟩ => .record "TypeExpr" [⟨"kind",form.outline⟩, ⟨"span",span.outline⟩]

def TypeForm.outline : TypeForm → Outline
  | .named name => .tuple "Named" [.text name]
  | .array element size =>
    .record "Array" [⟨"element",element.outline⟩, ⟨"size",size.outline⟩]
  | .reference mutable target =>
    .record "Reference" [⟨"mutable",.bool mutable⟩, ⟨"target",target.outline⟩]
  | .function params none =>
    .record "Function" [⟨"params",.list (typeOutlines params)⟩, ⟨"ret",.none⟩]
  | .function params (some ret) =>
    .record "Function" [⟨"params",.list (typeOutlines params)⟩, ⟨"ret",.some ret.outline⟩]

def typeOutlines : List TypeExpr → List Outline
  | [] => []
  | t :: ts => t.outline :: typeOutlines ts

/-- A type that is left out appears as well. -/
def optionalTypeOutline : Option TypeExpr → Outline
  | none => .none
  | some t => .some t.outline

def Expr.outline : Expr → Outline
  | ⟨id,span,form⟩ =>
    .record "Expr" [⟨"id",.nodeId id⟩, ⟨"kind",form.outline⟩, ⟨"span",span.outline⟩]

def ExprForm.outline : ExprForm → Outline
  | .int text => .tuple "IntLiteral" [.text text]
  | .bool b => .tuple "BoolLiteral" [.bool b]
  | .char c => .tuple "CharLiteral" [.atom (Quoted.char c)]
  | .string s => .tuple "StringLiteral" [.text s]
  | .name name => .tuple "Identifier" [.text name]
  | .binary op l r =>
    .record "Binary" [⟨"op",.atom op.name⟩, ⟨"left",l.outline⟩, ⟨"right",r.outline⟩]
  | .unary op e => .record "Unary" [⟨"op",.atom op.name⟩, ⟨"operand",e.outline⟩]
  | .addressOf e => .tuple "AddressOf" [e.outline]
  | .deref e => .tuple "Deref" [e.outline]
  | .index base index => .record "Index" [⟨"base",base.outline⟩, ⟨"index",index.outline⟩]
  | .call callee args =>
    .record "Call" [⟨"callee",callee.outline⟩, ⟨"args",.list (argumentOutlines args)⟩]
  | .array elements => .tuple "Array" [.list (exprOutlines elements)]
  | .lambda params ret body =>
    .tuple "Lambda" [.record "Lambda" [⟨"params",.list (lambdaParamOutlines params)⟩, ⟨"return_type",optionalTypeOutline ret⟩,
       ⟨"body",body.outline⟩]]
  | .paren e => .tuple "Paren" [e.outline]

def exprOutlines : List Expr → List Outline
  | [] => []
  | e :: es => e.outline :: exprOutlines es

def Argument.outline : Argument → Outline
  | ⟨name,value,span⟩ =>
    .record "Arg" [⟨"name",(name.map fun n => Outline.some (.text n)).getD .none⟩, ⟨"value",value.outline⟩, ⟨"span",span.outline⟩]

def argumentOutlines : List Argument → List Outline
  | [] => []
  | a :: as => a.outline :: argumentOutlines as

def LambdaParam.outline : LambdaParam → Outline
  | ⟨name,type,span⟩ =>
    .record "LambdaParam" [⟨"name",.text name⟩, ⟨"ty",optionalTypeOutline type⟩, ⟨"span",span.outline⟩]

def lambdaParamOutlines : List LambdaParam → List Outline
  | [] => []
  | p :: ps => p.outline :: lambdaParamOutlines ps

def LambdaBody.outline : LambdaBody → Outline
  | .expr e => .tuple "Expr" [e.outline]
  | .block b => .tuple "Block" [b.outline]

def Block.outline : Block → Outline
  | ⟨stmts,span⟩ =>
    .record "Block" [⟨"stmts",.list (stmtOutlines stmts)⟩, ⟨"span",span.outline⟩]

def Stmt.outline : Stmt → Outline
  | ⟨span,form⟩ => .record "Stmt" [⟨"kind",form.outline⟩, ⟨"span",span.outline⟩]

def stmtOutlines : List Stmt → List Outline
  | [] => []
  | s :: ss => s.outline :: stmtOutlines ss

def StmtForm.outline : StmtForm → Outline
  | .decl i => .tuple "Item" [i.outline]
  | .assign target value =>
    .record "Assign" [⟨"target",target.outline⟩, ⟨"value",value.outline⟩]
  | .expr e => .tuple "Expr" [e.outline]
  | .ret none => .tuple "Return" [.none]
  | .ret (some e) => .tuple "Return" [.some e.outline]
  | .cond c t none =>
    .record "If" [⟨"condition",c.outline⟩, ⟨"then_block",t.outline⟩, ⟨"else_branch",.none⟩]
  | .cond c t (some e) =>
    .record "If" [⟨"condition",c.outline⟩, ⟨"then_block",t.outline⟩, ⟨"else_branch",.some e.outline⟩]
  | .loop c b => .record "While" [⟨"condition",c.outline⟩, ⟨"body",b.outline⟩]
  | .block b => .tuple "Block" [b.outline]

def Decl.outline : Decl → Outline
  | .var d => .record "Item" [⟨"kind",.tuple "Let" [d.outline]⟩, ⟨"span",d.span.outline⟩]
  | .const d => .record "Item" [⟨"kind",.tuple "Const" [d.outline]⟩, ⟨"span",d.span.outline⟩]
  | .func d => .record "Item" [⟨"kind",.tuple "Def" [d.outline]⟩, ⟨"span",d.span.outline⟩]

def VarDecl.outline : VarDecl → Outline
  | ⟨id,name,nameSpan,mutable,type,init,span⟩ =>
    .record "VarDecl" [⟨"id",.nodeId id⟩, ⟨"name",.text name⟩, ⟨"name_span",nameSpan.outline⟩,
       ⟨"mutable",.bool mutable⟩, ⟨"ty",optionalTypeOutline type⟩, ⟨"init",init.outline⟩,
       ⟨"span",span.outline⟩]

def ConstDecl.outline : ConstDecl → Outline
  | ⟨id,name,nameSpan,type,value,span⟩ =>
    .record "ConstDecl" [⟨"id",.nodeId id⟩, ⟨"name",.text name⟩, ⟨"name_span",nameSpan.outline⟩,
       ⟨"ty",optionalTypeOutline type⟩, ⟨"value",value.outline⟩, ⟨"span",span.outline⟩]

def FunDecl.outline : FunDecl → Outline
  | ⟨id,name,nameSpan,params,ret,body,span⟩ =>
    .record "FnDecl" [⟨"id",.nodeId id⟩, ⟨"name",.text name⟩, ⟨"name_span",nameSpan.outline⟩,
       ⟨"params",.list (paramOutlines params)⟩, ⟨"return_type",optionalTypeOutline ret⟩,
       ⟨"body",body.outline⟩, ⟨"span",span.outline⟩]

def Param.outline : Param → Outline
  | ⟨name,anonymous,mutable,type,span⟩ =>
    .record "Param" [⟨"name",.text name⟩, ⟨"anonymous",.bool anonymous⟩, ⟨"mutable",.bool mutable⟩,
       ⟨"ty",type.outline⟩, ⟨"span",span.outline⟩]

def paramOutlines : List Param → List Outline
  | [] => []
  | p :: ps => p.outline :: paramOutlines ps

end

def Module.outline (m : Module) : Outline :=
  .record "Module" [⟨"items",.list (m.decls.map Decl.outline)⟩, ⟨"span",m.span.outline⟩]

end Opal
