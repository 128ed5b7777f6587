import Mathlib.Data.List.Nodup
import Opal.Proofs.Constructs

/-!
# The nodes of a syntax tree

The expressions and declarations of a tree as a list, the parts of a node before the node and in source order.
-/

namespace Opal

open List

/-- A numbered node of a syntax tree. -/
inductive Node where
  | expr (e : Expr)
  | decl (d : Decl)

def Node.id : Node → NodeId
  | expr e => e.id
  | decl d => d.id

@[simp] lemma Node.id_expr (e : Expr) : (Node.expr e).id = e.id := rfl

@[simp] lemma Node.id_decl (d : Decl) : (Node.decl d).id = d.id := rfl

lemma id_mem_of_expr {N : List Node} {e : Expr} (h : Node.expr e ∈ N) : e.id ∈ N.map Node.id :=
  mem_map.2 ⟨_,h,rfl⟩

lemma id_mem_of_decl {N : List Node} {d : Decl} (h : Node.decl d ∈ N) : d.id ∈ N.map Node.id :=
  mem_map.2 ⟨_,h,rfl⟩

mutual

def TypeExpr.nodes : TypeExpr → List Node
  | ⟨_,form⟩ => form.nodes

def TypeForm.nodes : TypeForm → List Node
  | .named _ => []
  | .array element size => element.nodes ++ size.nodes
  | .reference _ target => target.nodes
  | .function params ret => typeNodes params ++ optionalTypeNodes ret

def typeNodes : List TypeExpr → List Node
  | [] => []
  | t :: ts => t.nodes ++ typeNodes ts

def optionalTypeNodes : Option TypeExpr → List Node
  | none => []
  | some t => t.nodes

/-- The nodes in an expression, itself last. -/
def Expr.nodes : Expr → List Node
  | ⟨id,span,form⟩ => form.nodes ++ [.expr ⟨id,span,form⟩]

def ExprForm.nodes : ExprForm → List Node
  | .int _ | .bool _ | .char _ | .string _ | .name _ => []
  | .binary _ l r => l.nodes ++ r.nodes
  | .unary _ e => e.nodes
  | .addressOf e => e.nodes
  | .deref e => e.nodes
  | .index base index => base.nodes ++ index.nodes
  | .call callee args => callee.nodes ++ argumentNodes args
  | .array elements => exprNodes elements
  | .lambda params ret body => lambdaParamNodes params ++ optionalTypeNodes ret ++ body.nodes
  | .paren e => e.nodes

def exprNodes : List Expr → List Node
  | [] => []
  | e :: es => e.nodes ++ exprNodes es

def Argument.nodes : Argument → List Node
  | ⟨_,value,_⟩ => value.nodes

def argumentNodes : List Argument → List Node
  | [] => []
  | a :: as => a.nodes ++ argumentNodes as

def LambdaParam.nodes : LambdaParam → List Node
  | ⟨_,type,_⟩ => optionalTypeNodes type

def lambdaParamNodes : List LambdaParam → List Node
  | [] => []
  | p :: ps => p.nodes ++ lambdaParamNodes ps

def LambdaBody.nodes : LambdaBody → List Node
  | .expr e => e.nodes
  | .block b => b.nodes

def Block.nodes : Block → List Node
  | ⟨stmts,_⟩ => stmtNodes stmts

def stmtNodes : List Stmt → List Node
  | [] => []
  | s :: ss => s.nodes ++ stmtNodes ss

def Stmt.nodes : Stmt → List Node
  | ⟨_,form⟩ => form.nodes

def StmtForm.nodes : StmtForm → List Node
  | .decl d => d.nodes
  | .assign target value => target.nodes ++ value.nodes
  | .expr e => e.nodes
  | .ret none => []
  | .ret (some e) => e.nodes
  | .cond c t none => c.nodes ++ t.nodes
  | .cond c t (some e) => c.nodes ++ t.nodes ++ e.nodes
  | .loop c b => c.nodes ++ b.nodes
  | .block b => b.nodes

def Decl.nodes : Decl → List Node
  | .var d => d.nodes
  | .const d => d.nodes
  | .func d => d.nodes

def VarDecl.nodes : VarDecl → List Node
  | ⟨id,name,nameSpan,mutable,type,init,span⟩ =>
    optionalTypeNodes type ++ init.nodes ++ [.decl (.var ⟨id,name,nameSpan,mutable,type,init,span⟩)]

def ConstDecl.nodes : ConstDecl → List Node
  | ⟨id,name,nameSpan,type,value,span⟩ =>
    optionalTypeNodes type ++ value.nodes ++ [.decl (.const ⟨id,name,nameSpan,type,value,span⟩)]

def FunDecl.nodes : FunDecl → List Node
  | ⟨id,name,nameSpan,params,ret,body,span⟩ =>
    paramNodes params ++ optionalTypeNodes ret ++ body.nodes ++ [.decl (.func ⟨id,name,nameSpan,params,ret,body,span⟩)]

def Param.nodes : Param → List Node
  | ⟨_,_,_,type,_⟩ => type.nodes

def paramNodes : List Param → List Node
  | [] => []
  | p :: ps => p.nodes ++ paramNodes ps

end

attribute [simp] TypeExpr.nodes TypeForm.nodes Expr.nodes ExprForm.nodes Argument.nodes LambdaParam.nodes
  LambdaBody.nodes Block.nodes Stmt.nodes StmtForm.nodes Decl.nodes VarDecl.nodes ConstDecl.nodes FunDecl.nodes
  Param.nodes typeNodes optionalTypeNodes exprNodes argumentNodes lambdaParamNodes stmtNodes paramNodes

def Module.nodes (m : Module) : List Node :=
  m.decls.flatMap Decl.nodes

/-- The numbers in an expression, its own last. -/
abbrev Expr.ids (e : Expr) : List NodeId :=
  e.nodes.map Node.id

abbrev ConstDecl.ids (d : ConstDecl) : List NodeId :=
  d.nodes.map Node.id

/-- The numbers in a module, those of the parts of a node before its own and in source order. -/
abbrev Module.ids (m : Module) : List NodeId :=
  m.nodes.map Node.id

/-! ### The nodes of a construct and of its children -/

namespace Construct

def nodes : Construct → List Node
  | name .. => []
  | type t => t.nodes
  | expr e => e.nodes
  | argument a => a.nodes
  | lambdaParam p => p.nodes
  | param p => p.nodes
  | block b => b.nodes
  | stmt s => s.nodes
  | decl d => d.nodes

def node? : Construct → Option Node
  | expr e => some (.expr e)
  | decl d => some (.decl d)
  | _ => none

@[simp] lemma flatMap_nodes_types (ts : List TypeExpr) : (ts.map type).flatMap nodes = typeNodes ts := by
  induction ts <;> simp_all [nodes]

@[simp] lemma flatMap_nodes_optional (t : Option TypeExpr) : (optionalConstruct t).flatMap nodes = optionalTypeNodes t := by
  cases t <;> simp [optionalConstruct, nodes]

@[simp] lemma flatMap_nodes_exprs (es : List Expr) : (es.map expr).flatMap nodes = exprNodes es := by
  induction es <;> simp_all [nodes]

@[simp] lemma flatMap_nodes_arguments (as : List Argument) : (as.map argument).flatMap nodes = argumentNodes as := by
  induction as <;> simp_all [nodes]

@[simp] lemma flatMap_nodes_lambdaParams (ps : List LambdaParam) :
    (ps.map lambdaParam).flatMap nodes = lambdaParamNodes ps := by
  induction ps <;> simp_all [nodes]

@[simp] lemma flatMap_nodes_params (ps : List Param) : (ps.map param).flatMap nodes = paramNodes ps := by
  induction ps <;> simp_all [nodes]

@[simp] lemma flatMap_nodes_stmts (ss : List Stmt) : (ss.map stmt).flatMap nodes = stmtNodes ss := by
  induction ss <;> simp_all [nodes]

@[simp] lemma flatMap_nodes_typeForm (f : TypeForm) : f.children.flatMap nodes = f.nodes := by
  cases f <;> simp [TypeForm.children, nodes]

@[simp] lemma flatMap_nodes_exprForm (f : ExprForm) : f.children.flatMap nodes = f.nodes := by
  cases f with
  | lambda params ret body => cases body <;> simp [ExprForm.children, LambdaBody.construct, nodes]
  | _ => simp [ExprForm.children, nodes]

@[simp] lemma flatMap_nodes_stmtForm (f : StmtForm) : f.children.flatMap nodes = f.nodes := by
  rcases f with _ | _ | _ | (_ | _) | ⟨_,_,_ | _⟩ | _ | _ <;> simp [StmtForm.children, nodes]

/-- The nodes of a construct are those of its children, and then itself. -/
theorem nodes_eq (x : Construct) : x.nodes = x.children.flatMap nodes ++ x.node?.toList := by
  rcases x with _ | ⟨_,_⟩ | ⟨_,_⟩ | ⟨_,_⟩ | ⟨_,_⟩ | ⟨_,_⟩ | ⟨_,_⟩ | ⟨_,_⟩ | (⟨_,_⟩ | ⟨_,_⟩ | ⟨_,_⟩)
  all_goals simp [children, Decl.children, node?]
  all_goals simp [nodes]

end Construct

lemma TypeExpr.nodes_form (t : TypeExpr) : t.nodes = t.form.nodes := by
  cases t; rw [TypeExpr.nodes]

lemma Expr.nodes_eq (e : Expr) : e.nodes = e.form.nodes ++ [.expr e] := by
  cases e; rw [Expr.nodes]

lemma Expr.id_mem_ids (e : Expr) : e.id ∈ e.ids := by
  simp [Expr.ids, Expr.nodes_eq]

section

variable {N1 N2 : List Node} (h : ((N1 ++ N2).map Node.id).Nodup)
include h

lemma nodup_left : (N1.map Node.id).Nodup :=
  (map_append ▸ h).of_append_left

lemma nodup_right : (N2.map Node.id).Nodup :=
  (map_append ▸ h).of_append_right

lemma disjoint_of_nodup : (N1.map Node.id).Disjoint (N2.map Node.id) :=
  disjoint_of_nodup_append (map_append ▸ h)

end

lemma nodup_map_of_exprIds {f : Expr → NodeId} (hf : ∀ e, f e ∈ e.ids) :
    ∀ {es : List Expr}, ((exprNodes es).map Node.id).Nodup → (es.map f).Nodup
  | [], _ => .nil
  | e :: es, h => by
    have hmem : ∀ es : List Expr, ∀ x ∈ es.map f, x ∈ (exprNodes es).map Node.id := by
      intro es
      induction es with
      | nil => exact fun x hx => absurd hx not_mem_nil
      | cons e es ih =>
        rw [exprNodes, map_append]
        exact forall_mem_cons.2 ⟨mem_append_left _ (hf e),fun x hx => mem_append_right _ (ih x hx)⟩
    refine nodup_cons.2 ⟨fun hx => ?_,nodup_map_of_exprIds hf (nodup_right h)⟩
    exact disjoint_of_nodup h (hf e) (hmem es _ hx)

/-- The nodes inside the declaration of a constant. -/
def ConstDecl.parts (d : ConstDecl) : List Node :=
  optionalTypeNodes d.type ++ d.value.nodes

lemma ConstDecl.nodes_eq (d : ConstDecl) : d.nodes = d.parts ++ [.decl (.const d)] := by
  cases d; rw [ConstDecl.nodes, ConstDecl.parts]

def VarDecl.parts (d : VarDecl) : List Node :=
  optionalTypeNodes d.type ++ d.init.nodes

lemma VarDecl.nodes_eq (d : VarDecl) : d.nodes = d.parts ++ [.decl (.var d)] := by
  cases d; rw [VarDecl.nodes, VarDecl.parts]

lemma FunDecl.nodes_eq (d : FunDecl) :
    d.nodes = paramNodes d.params ++ optionalTypeNodes d.ret ++ d.body.nodes ++ [.decl (.func d)] := by
  cases d; rw [FunDecl.nodes]

def Decl.parts : Decl → List Node
  | .var d => d.parts
  | .const d => d.parts
  | .func d => paramNodes d.params ++ optionalTypeNodes d.ret ++ d.body.nodes

lemma Decl.nodes_parts : ∀ d : Decl, d.nodes = d.parts ++ [.decl d]
  | .var d => by rw [Decl.nodes, d.nodes_eq, Decl.parts]
  | .const d => by rw [Decl.nodes, d.nodes_eq, Decl.parts]
  | .func d => by rw [Decl.nodes, d.nodes_eq, Decl.parts]

lemma Expr.self_mem_nodes (e : Expr) : Node.expr e ∈ e.nodes := by
  simp [Expr.nodes_eq]

lemma mem_exprNodes {x : Expr} : ∀ {es : List Expr}, x ∈ es → Node.expr x ∈ exprNodes es
  | e :: es, h => by
    rcases mem_cons.1 h with rfl | h
    · exact mem_append_left _ x.self_mem_nodes
    · exact mem_append_right _ (mem_exprNodes h)

lemma mem_argumentNodes {a : Argument} : ∀ {as : List Argument}, a ∈ as → Node.expr a.value ∈ argumentNodes as
  | ⟨_,value,_⟩ :: as, h => by
    rcases mem_cons.1 h with rfl | h
    · exact mem_append_left _ value.self_mem_nodes
    · exact mem_append_right _ (mem_argumentNodes h)

lemma ConstDecl.ids_eq (d : ConstDecl) : d.ids = d.parts.map Node.id ++ [d.id] := by
  rw [ConstDecl.ids, d.nodes_eq, map_append]
  rfl

/-! ## Lists of nodes that hold what is inside their expressions -/

/-- A list of nodes that holds, with an expression, all the nodes inside it. -/
class Closed (N : List Node) : Prop where
  sub : ∀ e, Node.expr e ∈ N → ∀ x ∈ e.nodes, x ∈ N

namespace Closed

variable {N N1 N2 : List Node}

instance nil : Closed [] := ⟨by simp⟩

instance decl (d : Decl) : Closed [.decl d] := ⟨by simp⟩

instance append [h1 : Closed N1] [h2 : Closed N2] : Closed (N1 ++ N2) where
  sub e he x hx := by
    rcases mem_append.1 he with h | h
    · exact mem_append_left _ (h1.sub e h x hx)
    · exact mem_append_right _ (h2.sub e h x hx)

lemma of_forall {α : Type} {nodes : α → List Node} {l : List α} (h : ∀ a ∈ l, Closed (nodes a)) : Closed (l.flatMap nodes) where
  sub e he x hx := by
    obtain ⟨a,ha,he⟩ := mem_flatMap.1 he
    exact mem_flatMap.2 ⟨a,ha,(h a ha).sub e he x hx⟩

instance flatMap {α : Type} {nodes : α → List Node} [h : ∀ a, Closed (nodes a)] (l : List α) : Closed (l.flatMap nodes) :=
  of_forall fun a _ => h a

lemma both (_ : Closed N1) (_ : Closed N2) : Closed (N1 ++ N2) :=
  inferInstance

lemma concat (e : Expr) (h : Closed e.form.nodes) : Closed e.nodes where
  sub y hy x hx := by
    rw [e.nodes_eq] at hy ⊢
    rcases mem_append.1 hy with hy | hy
    · exact mem_append_left _ (h.sub y hy x hx)
    · rw [Node.expr.inj (mem_singleton.1 hy), e.nodes_eq] at hx
      exact hx

lemma part [h : Closed N] {e x : Expr} (he : Node.expr e ∈ N) (hx : Node.expr x ∈ e.form.nodes) : Node.expr x ∈ N :=
  h.sub e he _ (e.nodes_eq ▸ mem_append_left _ hx)

lemma id_mem [h : Closed N] {e : Expr} (he : Node.expr e ∈ N) {id : NodeId} (hid : id ∈ e.ids) : id ∈ N.map Node.id := by
  obtain ⟨n,hn,rfl⟩ := mem_map.1 hid
  exact mem_map_of_mem (h.sub e he n hn)

end Closed

lemma Construct.closed_nodes (x : Construct) : Closed x.nodes := by
  induction x using Construct.induction with
  | h x ih =>
    have hchildren := Closed.of_forall ih
    cases x with
    | expr e =>
      refine Closed.concat e ?_
      rwa [← flatMap_nodes_exprForm]
    | decl d =>
      rw [nodes_eq]
      exact hchildren.both (.decl d)
    | _ =>
      rw [nodes_eq]
      exact hchildren.both .nil

section

open Construct

instance TypeExpr.closed_nodes (t : TypeExpr) : Closed t.nodes := (type t).closed_nodes

instance Expr.closed_nodes (e : Expr) : Closed e.nodes := (expr e).closed_nodes

instance Block.closed_nodes (b : Block) : Closed b.nodes := (block b).closed_nodes

instance LambdaParam.closed_nodes (p : LambdaParam) : Closed p.nodes := (lambdaParam p).closed_nodes

instance Param.closed_nodes (p : Param) : Closed p.nodes := (param p).closed_nodes

instance Stmt.closed_nodes (s : Stmt) : Closed s.nodes := (stmt s).closed_nodes

instance Decl.closed_nodes (d : Decl) : Closed d.nodes := (decl d).closed_nodes

instance LambdaBody.closed_nodes : ∀ b : LambdaBody, Closed b.nodes
  | .expr e => e.closed_nodes
  | .block b => b.closed_nodes

lemma closed_flatMap (xs : List Construct) : Closed (xs.flatMap nodes) :=
  .of_forall fun x _ => x.closed_nodes

instance TypeForm.closed_nodes (f : TypeForm) : Closed f.nodes := flatMap_nodes_typeForm f ▸ closed_flatMap _

instance ExprForm.closed_nodes (f : ExprForm) : Closed f.nodes := flatMap_nodes_exprForm f ▸ closed_flatMap _

instance closed_optionalTypeNodes (t : Option TypeExpr) : Closed (optionalTypeNodes t) :=
  flatMap_nodes_optional t ▸ closed_flatMap _

instance closed_typeNodes (ts : List TypeExpr) : Closed (typeNodes ts) := flatMap_nodes_types ts ▸ closed_flatMap _

instance closed_exprNodes (es : List Expr) : Closed (exprNodes es) := flatMap_nodes_exprs es ▸ closed_flatMap _

instance closed_lambdaParamNodes (ps : List LambdaParam) : Closed (lambdaParamNodes ps) :=
  flatMap_nodes_lambdaParams ps ▸ closed_flatMap _

instance closed_paramNodes (ps : List Param) : Closed (paramNodes ps) := flatMap_nodes_params ps ▸ closed_flatMap _

end

instance ConstDecl.closed_parts (d : ConstDecl) : Closed d.parts := by
  rw [ConstDecl.parts]; infer_instance

instance VarDecl.closed_parts (d : VarDecl) : Closed d.parts := by
  rw [VarDecl.parts]; infer_instance

end Opal
