import Mathlib.Order.MinMax
import Opal.Proofs.Constructs
import Opal.Syntax.Cursor

/-!
# Trees at other places

The trees, tokens and readers that differ from given ones in the places of their parts, or also in their numbers.
-/

namespace Opal

/-- What becomes of the numbers and the places in a tree. -/
structure Relabeling where
  number : NodeId → NodeId
  place : Span → Span

/-- Only the places change. -/
instance : Coe (Span → Span) Relabeling :=
  ⟨fun f => ⟨fun n => n,f⟩⟩

/-- Nothing changes. -/
abbrev Relabeling.id : Relabeling :=
  ⟨fun n => n,fun a => a⟩

mutual

/-- A written type with other numbers and places. -/
def TypeExpr.respan (f : Relabeling) : TypeExpr → TypeExpr
  | ⟨span,form⟩ => ⟨f.place span,form.respan f⟩

def TypeForm.respan (f : Relabeling) : TypeForm → TypeForm
  | .named name => .named name
  | .array element size => .array (element.respan f) (size.respan f)
  | .reference mutable target => .reference mutable (target.respan f)
  | .function params ret => .function (respanTypes f params) (respanOptionalType f ret)

def respanTypes (f : Relabeling) : List TypeExpr → List TypeExpr
  | [] => []
  | t :: ts => t.respan f :: respanTypes f ts

def respanOptionalType (f : Relabeling) : Option TypeExpr → Option TypeExpr
  | none => none
  | some t => some (t.respan f)

def Expr.respan (f : Relabeling) : Expr → Expr
  | ⟨id,span,form⟩ => ⟨f.number id,f.place span,form.respan f⟩

def ExprForm.respan (f : Relabeling) : ExprForm → ExprForm
  | .int text => .int text
  | .bool b => .bool b
  | .char c => .char c
  | .string s => .string s
  | .name name => .name name
  | .binary op l r => .binary op (l.respan f) (r.respan f)
  | .unary op e => .unary op (e.respan f)
  | .addressOf e => .addressOf (e.respan f)
  | .deref e => .deref (e.respan f)
  | .index base index => .index (base.respan f) (index.respan f)
  | .call callee args => .call (callee.respan f) (respanArguments f args)
  | .array elements => .array (respanExprs f elements)
  | .lambda params ret body => .lambda (respanLambdaParams f params) (respanOptionalType f ret) (body.respan f)
  | .paren e => .paren (e.respan f)

def respanExprs (f : Relabeling) : List Expr → List Expr
  | [] => []
  | e :: es => e.respan f :: respanExprs f es

def Argument.respan (f : Relabeling) : Argument → Argument
  | ⟨name,value,span⟩ => ⟨name,value.respan f,f.place span⟩

def respanArguments (f : Relabeling) : List Argument → List Argument
  | [] => []
  | a :: as => a.respan f :: respanArguments f as

def LambdaParam.respan (f : Relabeling) : LambdaParam → LambdaParam
  | ⟨name,type,span⟩ => ⟨name,respanOptionalType f type,f.place span⟩

def respanLambdaParams (f : Relabeling) : List LambdaParam → List LambdaParam
  | [] => []
  | p :: ps => p.respan f :: respanLambdaParams f ps

def LambdaBody.respan (f : Relabeling) : LambdaBody → LambdaBody
  | .expr e => .expr (e.respan f)
  | .block b => .block (b.respan f)

def Block.respan (f : Relabeling) : Block → Block
  | ⟨stmts,span⟩ => ⟨respanStmts f stmts,f.place span⟩

def respanStmts (f : Relabeling) : List Stmt → List Stmt
  | [] => []
  | s :: ss => s.respan f :: respanStmts f ss

def Stmt.respan (f : Relabeling) : Stmt → Stmt
  | ⟨span,form⟩ => ⟨f.place span,form.respan f⟩

def StmtForm.respan (f : Relabeling) : StmtForm → StmtForm
  | .decl d => .decl (d.respan f)
  | .assign target value => .assign (target.respan f) (value.respan f)
  | .expr e => .expr (e.respan f)
  | .ret none => .ret none
  | .ret (some e) => .ret (some (e.respan f))
  | .cond c t none => .cond (c.respan f) (t.respan f) none
  | .cond c t (some e) => .cond (c.respan f) (t.respan f) (some (e.respan f))
  | .loop c b => .loop (c.respan f) (b.respan f)
  | .block b => .block (b.respan f)

def Decl.respan (f : Relabeling) : Decl → Decl
  | .var d => .var (d.respan f)
  | .const d => .const (d.respan f)
  | .func d => .func (d.respan f)

def VarDecl.respan (f : Relabeling) : VarDecl → VarDecl
  | ⟨id,name,nameSpan,mutable,type,init,span⟩ =>
    ⟨f.number id,name,f.place nameSpan,mutable,respanOptionalType f type,init.respan f,f.place span⟩

def ConstDecl.respan (f : Relabeling) : ConstDecl → ConstDecl
  | ⟨id,name,nameSpan,type,value,span⟩ =>
    ⟨f.number id,name,f.place nameSpan,respanOptionalType f type,value.respan f,f.place span⟩

def FunDecl.respan (f : Relabeling) : FunDecl → FunDecl
  | ⟨id,name,nameSpan,params,ret,body,span⟩ =>
    ⟨f.number id,name,f.place nameSpan,respanParams f params,respanOptionalType f ret,body.respan f,f.place span⟩

def Param.respan (f : Relabeling) : Param → Param
  | ⟨name,anonymous,mutable,type,span⟩ => ⟨name,anonymous,mutable,type.respan f,f.place span⟩

def respanParams (f : Relabeling) : List Param → List Param
  | [] => []
  | p :: ps => p.respan f :: respanParams f ps

end

attribute [simp] TypeExpr.respan TypeForm.respan respanTypes respanOptionalType Expr.respan ExprForm.respan respanExprs
  Argument.respan respanArguments LambdaParam.respan respanLambdaParams LambdaBody.respan Block.respan respanStmts
  Stmt.respan StmtForm.respan Decl.respan VarDecl.respan ConstDecl.respan FunDecl.respan Param.respan respanParams

lemma respan_id : ForTrees (fun t => t.respan .id = t) (fun form => form.respan .id = form)
    (fun t => respanOptionalType .id t = t) (fun ts => respanTypes .id ts = ts) (fun e => e.respan .id = e)
    (fun form => form.respan .id = form) (fun body => body.respan .id = body) (fun b => b.respan .id = b)
    (fun ss => respanStmts .id ss = ss) (fun s => s.respan .id = s) (fun form => form.respan .id = form)
    (fun d => d.respan .id = d) (fun d => d.respan .id = d) (fun ps => respanParams .id ps = ps) (fun p => p.respan .id = p)
    (fun d => d.respan .id = d) (fun d => d.respan .id = d) (fun ps => respanLambdaParams .id ps = ps)
    (fun p => p.respan .id = p) (fun es => respanExprs .id es = es) (fun as => respanArguments .id as = as)
    (fun a => a.respan .id = a) := by
  apply ForTrees.of_and
  apply TypeExpr.respan.mutual_induct <;> intros <;> simp [*]

/-- A change of places that keeps their order. -/
structure Shift where
  start : Nat → Nat
  stop : Nat → Nat
  start_mono : Monotone start
  stop_mono : Monotone stop

def Token.respan (f : Relabeling) (t : Token) : Token :=
  ⟨t.kind,f.place t.span⟩

namespace Shift

/-- Everything stays where it is. -/
def id : Shift :=
  ⟨fun n => n,fun n => n,monotone_id,monotone_id⟩

variable (V : Shift)

def span (s : Span) : Span :=
  ⟨V.start s.start,V.stop s.stop⟩

lemma span_cover (a b : Span) : V.span (a.cover b) = (V.span a).cover (V.span b) := by
  rw [Span.cover, span, V.start_mono.map_min, V.stop_mono.map_max]
  rfl

lemma span_max (start m n : Nat) : V.span ⟨start,max m n⟩ = ⟨V.start start,max (V.stop m) (V.stop n)⟩ := by
  rw [span, V.stop_mono.map_max]

def error (e : SyntaxError) : SyntaxError :=
  ⟨e.cause,V.span e.span⟩

/-- What was found, or the error, at other places. -/
def result {α β : Type} (g : α → β) : Except SyntaxError α → Except SyntaxError β
  | .ok a => .ok (g a)
  | .error e => .error (V.error e)

def cursor (c : Cursor) : Cursor where
  tokens := c.tokens.map (Token.respan V.span)
  faults := c.faults.map fun x => (V.error x.1, x.2.map (Token.respan V.span))
  last := c.last.respan V.span
  prevStop := V.stop c.prevStop
  nextId := c.nextId

def failure (f : ReadFailure) : ReadFailure :=
  ⟨V.error f.error,V.cursor f.reader⟩

attribute [simp] Token.respan Shift.result Shift.cursor

end Shift

end Opal
