import Opal.Proofs.Nodes
import Opal.Ty.Named

/-!
# Where nodes stand

The scopes around every node, read off the tree alone. A block declares what its statements declare, together with the
parameters of the function or lambda whose body it is.
-/

namespace Opal

/-- A place in the source that declares a name: a declaration, or a parameter, which has no number. -/
structure Declarator where
  name : String
  span : Span
  node : Option NodeId
deriving DecidableEq, Repr

/-- What one scope declares, in source order. -/
abbrev Frame := List Declarator

/-- The scopes around a place in the source, innermost first. -/
abbrev Env := List Frame

/-- The declarator of a name in one scope: the first one, since a further one is refused. Reserved names are
refused everywhere. -/
def Frame.accepted? (F : Frame) (name : String) : Option Declarator :=
  if isReservedName name then none else List.find? (fun d => d.name == name) F

/-- The declarator that a name refers to: that of the innermost scope that has one. -/
def Env.resolve? (Γ : Env) (name : String) : Option Declarator :=
  List.findSome? (fun F => Frame.accepted? F name) Γ

def Decl.declarator (d : Decl) : Declarator :=
  ⟨d.name,d.nameSpan,some d.id⟩

def Param.declarator (p : Param) : Declarator :=
  ⟨p.name,p.span,none⟩

def LambdaParam.declarator (p : LambdaParam) : Declarator :=
  ⟨p.name,p.span,none⟩

/-- What the scope of a block declares after the parameters in `F`. -/
def Block.frame (b : Block) (F : Frame) : Frame :=
  F ++ b.decls.map Decl.declarator

mutual

def TypeExpr.located : TypeExpr → Env → List (Node × Env)
  | ⟨_,form⟩, Γ => form.located Γ

def TypeForm.located : TypeForm → Env → List (Node × Env)
  | .named _, _ => []
  | .array element size, Γ => element.located Γ ++ size.located Γ
  | .reference _ target, Γ => target.located Γ
  | .function params ret, Γ => locatedTypes params Γ ++ locatedOptionalType ret Γ

def locatedTypes : List TypeExpr → Env → List (Node × Env)
  | [], _ => []
  | t :: ts, Γ => t.located Γ ++ locatedTypes ts Γ

def locatedOptionalType : Option TypeExpr → Env → List (Node × Env)
  | none, _ => []
  | some t, Γ => t.located Γ

/-- The nodes in an expression, itself last. -/
def Expr.located : Expr → Env → List (Node × Env)
  | ⟨id,span,form⟩, Γ => form.located Γ ++ [(.expr ⟨id,span,form⟩, Γ)]

def ExprForm.located : ExprForm → Env → List (Node × Env)
  | .int _, _ | .bool _, _ | .char _, _ | .string _, _ | .name _, _ => []
  | .binary _ l r, Γ => l.located Γ ++ r.located Γ
  | .unary _ e, Γ => e.located Γ
  | .addressOf e, Γ => e.located Γ
  | .deref e, Γ => e.located Γ
  | .index base index, Γ => base.located Γ ++ index.located Γ
  | .call callee args, Γ => callee.located Γ ++ locatedArguments args Γ
  | .array elements, Γ => locatedExprs elements Γ
  | .lambda params ret body, Γ =>
    locatedLambdaParams params Γ ++ locatedOptionalType ret Γ ++ body.located (params.map LambdaParam.declarator) Γ
  | .paren e, Γ => e.located Γ

def locatedExprs : List Expr → Env → List (Node × Env)
  | [], _ => []
  | e :: es, Γ => e.located Γ ++ locatedExprs es Γ

def Argument.located : Argument → Env → List (Node × Env)
  | ⟨_,value,_⟩, Γ => value.located Γ

def locatedArguments : List Argument → Env → List (Node × Env)
  | [], _ => []
  | a :: as, Γ => a.located Γ ++ locatedArguments as Γ

def LambdaParam.located : LambdaParam → Env → List (Node × Env)
  | ⟨_,type,_⟩, Γ => locatedOptionalType type Γ

def locatedLambdaParams : List LambdaParam → Env → List (Node × Env)
  | [], _ => []
  | p :: ps, Γ => p.located Γ ++ locatedLambdaParams ps Γ

def LambdaBody.located : LambdaBody → Frame → Env → List (Node × Env)
  | .expr e, F, Γ => e.located (F :: Γ)
  | .block b, F, Γ => b.located F Γ

def Block.located : Block → Frame → Env → List (Node × Env)
  | ⟨stmts,span⟩, F, Γ => locatedStmts stmts ((Block.mk stmts span).frame F :: Γ)

def locatedStmts : List Stmt → Env → List (Node × Env)
  | [], _ => []
  | s :: ss, Γ => s.located Γ ++ locatedStmts ss Γ

def Stmt.located : Stmt → Env → List (Node × Env)
  | ⟨_,form⟩, Γ => form.located Γ

def StmtForm.located : StmtForm → Env → List (Node × Env)
  | .decl d, Γ => d.located Γ
  | .assign target value, Γ => target.located Γ ++ value.located Γ
  | .expr e, Γ => e.located Γ
  | .ret none, _ => []
  | .ret (some e), Γ => e.located Γ
  | .cond c t none, Γ => c.located Γ ++ t.located [] Γ
  | .cond c t (some e), Γ => c.located Γ ++ t.located [] Γ ++ e.located Γ
  | .loop c b, Γ => c.located Γ ++ b.located [] Γ
  | .block b, Γ => b.located [] Γ

def Decl.located : Decl → Env → List (Node × Env)
  | .var d, Γ => d.located Γ
  | .const d, Γ => d.located Γ
  | .func d, Γ => d.located Γ

def VarDecl.located : VarDecl → Env → List (Node × Env)
  | ⟨id,name,nameSpan,mutable,type,init,span⟩, Γ =>
    locatedOptionalType type Γ ++ init.located Γ ++ [(.decl (.var ⟨id,name,nameSpan,mutable,type,init,span⟩), Γ)]

def ConstDecl.located : ConstDecl → Env → List (Node × Env)
  | ⟨id,name,nameSpan,type,value,span⟩, Γ =>
    locatedOptionalType type Γ ++ value.located Γ ++ [(.decl (.const ⟨id,name,nameSpan,type,value,span⟩), Γ)]

def FunDecl.located : FunDecl → Env → List (Node × Env)
  | ⟨id,name,nameSpan,params,ret,body,span⟩, Γ =>
    locatedParams params Γ ++ locatedOptionalType ret Γ ++ body.located (params.map Param.declarator) Γ ++
      [(.decl (.func ⟨id,name,nameSpan,params,ret,body,span⟩), Γ)]

def Param.located : Param → Env → List (Node × Env)
  | ⟨_,_,_,type,_⟩, Γ => type.located Γ

def locatedParams : List Param → Env → List (Node × Env)
  | [], _ => []
  | p :: ps, Γ => p.located Γ ++ locatedParams ps Γ

end

attribute [simp] TypeExpr.located TypeForm.located Expr.located ExprForm.located Argument.located LambdaParam.located
  LambdaBody.located Block.located Stmt.located StmtForm.located Decl.located VarDecl.located ConstDecl.located
  FunDecl.located Param.located locatedTypes locatedOptionalType locatedExprs locatedArguments locatedLambdaParams
  locatedStmts locatedParams

def Module.env (m : Module) : Env :=
  [m.decls.map Decl.declarator]

/-- The nodes of a module, each with the scopes around it. -/
def Module.located (m : Module) : List (Node × Env) :=
  m.decls.flatMap fun d => d.located m.env

/-- The declarator that the name in an expression of a module refers to. -/
def Module.declarator? (m : Module) (id : NodeId) (name : String) : Option Declarator := do
  let (_, Γ) ← m.located.find? fun x => x.1.id == id
  Env.resolve? Γ name

/-! ## Every node stands in one place -/

lemma map_fst_located : ForTrees (fun t => ∀ Γ, (t.located Γ).map Prod.fst = t.nodes)
    (fun f => ∀ Γ, (f.located Γ).map Prod.fst = f.nodes)
    (fun t => ∀ Γ, (locatedOptionalType t Γ).map Prod.fst = optionalTypeNodes t)
    (fun ts => ∀ Γ, (locatedTypes ts Γ).map Prod.fst = typeNodes ts) (fun e => ∀ Γ, (e.located Γ).map Prod.fst = e.nodes)
    (fun f => ∀ Γ, (f.located Γ).map Prod.fst = f.nodes) (fun b => ∀ F Γ, (b.located F Γ).map Prod.fst = b.nodes)
    (fun b => ∀ F Γ, (b.located F Γ).map Prod.fst = b.nodes) (fun ss => ∀ Γ, (locatedStmts ss Γ).map Prod.fst = stmtNodes ss)
    (fun s => ∀ Γ, (s.located Γ).map Prod.fst = s.nodes) (fun f => ∀ Γ, (f.located Γ).map Prod.fst = f.nodes)
    (fun d => ∀ Γ, (d.located Γ).map Prod.fst = d.nodes) (fun d => ∀ Γ, (d.located Γ).map Prod.fst = d.nodes)
    (fun ps => ∀ Γ, (locatedParams ps Γ).map Prod.fst = paramNodes ps) (fun p => ∀ Γ, (p.located Γ).map Prod.fst = p.nodes)
    (fun d => ∀ Γ, (d.located Γ).map Prod.fst = d.nodes) (fun d => ∀ Γ, (d.located Γ).map Prod.fst = d.nodes)
    (fun ps => ∀ Γ, (locatedLambdaParams ps Γ).map Prod.fst = lambdaParamNodes ps)
    (fun p => ∀ Γ, (p.located Γ).map Prod.fst = p.nodes) (fun es => ∀ Γ, (locatedExprs es Γ).map Prod.fst = exprNodes es)
    (fun as => ∀ Γ, (locatedArguments as Γ).map Prod.fst = argumentNodes as)
    (fun a => ∀ Γ, (a.located Γ).map Prod.fst = a.nodes) := by
  apply ForTrees.of_and
  apply TypeExpr.located.mutual_induct <;> intros <;> simp [*]

lemma Module.map_fst_located (m : Module) : m.located.map Prod.fst = m.nodes := by
  rw [Module.located, Module.nodes, List.map_flatMap]
  exact List.flatMap_congr fun d _ => Opal.map_fst_located.decl d m.env

end Opal
