import Opal.Proofs.CheckedModules
import Opal.Proofs.Locations

/-!
# Declarations stay in their scopes

A scope inside of an expression lies in it as a whole. So a name that means a declaration inside of an expression is inside of
it too.
-/

namespace Opal

open List

lemma Decl.exists_parts (d : Decl) : ∃ P, Closed P ∧ d.nodes = P ++ [.decl d] := by
  cases d with
  | var d =>
    refine ⟨d.parts,?_,by rw [Decl.nodes, d.nodes_eq]⟩
    rw [VarDecl.parts]; infer_instance
  | const d =>
    refine ⟨d.parts,?_,by rw [Decl.nodes, d.nodes_eq]⟩
    rw [ConstDecl.parts]; infer_instance
  | func d =>
    refine ⟨paramNodes d.params ++ optionalTypeNodes d.ret ++ d.body.nodes,?_,by
      rw [Decl.nodes, d.nodes_eq]⟩
    infer_instance

lemma Decl.notMem_ids {d : Decl} (hnodup : (d.nodes.map Node.id).Nodup) {e : Expr}
    (he : Node.expr e ∈ d.nodes) : d.id ∉ e.ids := by
  obtain ⟨P,hclosed,hP⟩ := d.exists_parts
  rw [hP] at he hnodup
  rw [map_append] at hnodup
  intro hid
  rcases mem_append.1 he with he | he
  · exact disjoint_of_nodup_append hnodup (hclosed.id_mem he hid) (mem_singleton_self _)
  · cases mem_singleton.1 he

lemma Stmt.notMem_ids_of_direct : ∀ {L : List Stmt}, ((L.flatMap Stmt.nodes).map Node.id).Nodup →
    ∀ {d : Decl}, d ∈ L.filterMap Stmt.decl? → ∀ {e : Expr}, Node.expr e ∈ L.flatMap Stmt.nodes → d.id ∉ e.ids
  | st :: L, hnodup, d, hd, e, he => by
    rw [flatMap_cons, map_append] at hnodup
    rw [flatMap_cons] at he
    obtain ⟨hst,hL,-⟩ := nodup_append.1 hnodup
    have hdisjoint := disjoint_of_nodup_append hnodup
    obtain ⟨st',hst',hd'⟩ := mem_filterMap.1 hd
    intro hid
    rcases mem_cons.1 hst' with rfl | hmem <;> rcases mem_append.1 he with he | he
    · rw [Stmt.nodes_of_decl hd'] at hst he
      exact Decl.notMem_ids hst he hid
    · have hself : d.id ∈ st'.nodes.map Node.id := Stmt.nodes_of_decl hd' ▸ d.id_mem_ids
      exact hdisjoint hself (Closed.id_mem he hid)
    · have hself : d.id ∈ (L.flatMap Stmt.nodes).map Node.id :=
        map_subset _ (sublist_flatMap_of_mem Stmt.nodes hmem).subset (Stmt.nodes_of_decl hd' ▸ d.id_mem_ids)
      exact hdisjoint (Closed.id_mem he hid) hself
    · exact Stmt.notMem_ids_of_direct hL (mem_filterMap.2 ⟨st',hmem,hd'⟩) he hid

/-! ## Nested scopes -/

/-- A declaration that can be seen at a node of `L` belongs to a scope around `L`, or it is in `L`, and then the node is
inside of every expression of `L` that the declaration is inside of. -/
structure Nested (Γ : Env) (L : List (Node × Env)) : Prop where
  closed : Closed (L.map Prod.fst)
  inside : ((L.map Prod.fst).map Node.id).Nodup → ∀ n Δ, (n, Δ) ∈ L → ∀ F ∈ Δ, ∀ D ∈ F, ∀ i ∈ D.node,
    (∃ F' ∈ Γ, D ∈ F') ∨ i ∈ (L.map Prod.fst).map Node.id ∧ ∀ e, Node.expr e ∈ L.map Prod.fst → i ∈ e.ids → n ∈ e.nodes

namespace Nested

variable {Γ : Env} {L L1 L2 : List (Node × Env)} {F : Frame}

lemma nil : Nested Γ [] :=
  ⟨.nil,nofun⟩

lemma append (h1 : Nested Γ L1) (h2 : Nested Γ L2) : Nested Γ (L1 ++ L2) where
  closed := by
    have := h1.closed
    have := h2.closed
    rw [map_append]
    infer_instance
  inside hnodup n Δ hn F hF D hD i hi := by
    rw [map_append] at hnodup ⊢
    rw [map_append] at hnodup ⊢
    obtain ⟨hnodup1,hnodup2,-⟩ := nodup_append.1 hnodup
    have hdisjoint := disjoint_of_nodup_append hnodup
    -- an expression of the other part has none of the numbers of this part
    rcases mem_append.1 hn with hn | hn
    · refine (h1.inside hnodup1 n Δ hn F hF D hD i hi).imp_right fun ⟨hmem,hinside⟩ =>
        ⟨mem_append_left _ hmem,fun e he hid => ?_⟩
      rcases mem_append.1 he with he | he
      · exact hinside e he hid
      · exact (hdisjoint hmem (h2.closed.id_mem he hid)).elim
    · refine (h2.inside hnodup2 n Δ hn F hF D hD i hi).imp_right fun ⟨hmem,hinside⟩ =>
        ⟨mem_append_right _ hmem,fun e he hid => ?_⟩
      rcases mem_append.1 he with he | he
      · exact (hdisjoint (h1.closed.id_mem he hid) hmem).elim
      · exact hinside e he hid

lemma decl (Γ : Env) (d : Decl) : Nested Γ [(.decl d, Γ)] where
  closed := Closed.decl d
  inside _ n Δ hn F hF D hD i hi := by
    cases mem_singleton.1 hn
    exact .inl ⟨F,hF,hD⟩

/-- So does an expression. What is inside of it is inside of it. -/
theorem expr (e : Expr) (h : Nested Γ (e.form.located Γ)) : Nested Γ (e.located Γ) where
  closed := map_fst_located.expr e Γ ▸ e.closed_nodes
  inside hnodup n Δ hn F hF D hD i hi := by
    rw [map_fst_located.expr, e.nodes_eq, ← map_fst_located.exprForm _ Γ] at hnodup ⊢
    rw [map_append] at hnodup
    have hlocated : e.located Γ = e.form.located Γ ++ [(.expr e, Γ)] := by
      cases e
      rw [Expr.located]
    rw [hlocated] at hn
    rcases mem_append.1 hn with hn | hn
    · refine (h.inside (nodup_append.1 hnodup).1 n Δ hn F hF D hD i hi).imp_right fun ⟨hmem,hinside⟩ =>
        ⟨map_append ▸ mem_append_left _ hmem,fun e' he' hid => ?_⟩
      rcases mem_append.1 he' with he' | he'
      · exact hinside e' he' hid
      · obtain rfl := Node.expr.inj (mem_singleton.1 he')
        rw [Expr.nodes_eq, ← map_fst_located.exprForm _ Γ]
        exact mem_append_left _ (mem_map_of_mem hn)
    · cases mem_singleton.1 hn
      exact .inl ⟨F,hF,hD⟩

/-- A scope is closed: what it declares is in it, but in none of its expressions. -/
theorem scope (h : Nested (F :: Γ) L) (hF : ∀ D ∈ F, ∀ i ∈ D.node, i ∈ (L.map Prod.fst).map Node.id ∧
      (((L.map Prod.fst).map Node.id).Nodup → ∀ e, Node.expr e ∈ L.map Prod.fst → i ∉ e.ids)) : Nested Γ L where
  closed := h.closed
  inside hnodup n Δ hn F' hF' D hD i hi := by
    rcases h.inside hnodup n Δ hn F' hF' D hD i hi with ⟨F0,hF0,hD0⟩ | hinside
    · rcases mem_cons.1 hF0 with rfl | hF0
      · obtain ⟨hmem,hnot⟩ := hF D hD0 i hi
        exact .inr ⟨hmem,fun e he hid => absurd hid (hnot hnodup e he)⟩
      · exact .inl ⟨F0,hF0,hD0⟩
    · exact .inr hinside

lemma params (h : Nested (F :: Γ) L) (hF : ∀ D ∈ F, D.node = none) : Nested Γ L :=
  h.scope fun D hD i hi => by
    rw [hF D hD] at hi
    cases hi

end Nested

lemma node_of_mem_params {ps : List Param} : ∀ D ∈ ps.map Param.declarator, D.node = none := by
  rintro D hD
  obtain ⟨p,-,rfl⟩ := mem_map.1 hD
  rfl

lemma node_of_mem_lambdaParams {ps : List LambdaParam} : ∀ D ∈ ps.map LambdaParam.declarator, D.node = none := by
  rintro D hD
  obtain ⟨p,-,rfl⟩ := mem_map.1 hD
  rfl

lemma Nested.stmts {Γ : Env} {F : Frame} {ss : List Stmt}
    (h : Nested ((F ++ (ss.filterMap Stmt.decl?).map Decl.declarator) :: Γ)
      (locatedStmts ss ((F ++ (ss.filterMap Stmt.decl?).map Decl.declarator) :: Γ))) (hF : ∀ D ∈ F, D.node = none) :
    Nested Γ (locatedStmts ss ((F ++ (ss.filterMap Stmt.decl?).map Decl.declarator) :: Γ)) := by
  refine h.scope fun D hD i hi => ?_
  rw [map_fst_located.stmts, stmtNodes_eq_flatMap]
  rcases mem_append.1 hD with hD | hD
  · rw [hF D hD] at hi
    cases hi
  · obtain ⟨d,hd,rfl⟩ := mem_map.1 hD
    obtain rfl := Option.some.inj hi
    refine ⟨?_,fun hnodup e he => Stmt.notMem_ids_of_direct hnodup hd he⟩
    obtain ⟨st,hst,hd⟩ := mem_filterMap.1 hd
    exact map_subset _ (sublist_flatMap_of_mem Stmt.nodes hst).subset (Stmt.nodes_of_decl hd ▸ d.id_mem_ids)

/-! ## Trees -/

mutual

lemma TypeExpr.nested (Γ : Env) : ∀ t : TypeExpr, Nested Γ (t.located Γ)
  | ⟨_,.named _⟩ => .nil
  | ⟨_,.array element size⟩ => (element.nested Γ).append (size.nested Γ)
  | ⟨_,.reference _ target⟩ => target.nested Γ
  | ⟨_,.function params ret⟩ => (types_nested Γ params).append (optionalType_nested Γ ret)

lemma types_nested (Γ : Env) : ∀ ts : List TypeExpr, Nested Γ (locatedTypes ts Γ)
  | [] => .nil
  | t :: ts => (t.nested Γ).append (types_nested Γ ts)

lemma optionalType_nested (Γ : Env) : ∀ t : Option TypeExpr, Nested Γ (locatedOptionalType t Γ)
  | none => .nil
  | some t => t.nested Γ

/-- Around an expression the scopes are the same, and inside of it more of them may be open. -/
theorem Expr.nested (Γ : Env) (e : Expr) : Nested Γ (e.located Γ) := by
  obtain ⟨id,span,form⟩ := e
  refine .expr _ ?_
  cases form with
  | int | bool | char | string | name => exact .nil
  | binary _ l r | index l r => exact (l.nested Γ).append (r.nested Γ)
  | unary _ e | addressOf e | deref e | paren e => exact e.nested Γ
  | call callee args => exact (callee.nested Γ).append (arguments_nested Γ args)
  | array elements => exact exprs_nested Γ elements
  | lambda params ret body =>
    exact ((lambdaParams_nested Γ params).append (optionalType_nested Γ ret)).append (body.nested Γ node_of_mem_lambdaParams)

lemma exprs_nested (Γ : Env) : ∀ es : List Expr, Nested Γ (locatedExprs es Γ)
  | [] => .nil
  | e :: es => (e.nested Γ).append (exprs_nested Γ es)

lemma arguments_nested (Γ : Env) : ∀ as : List Argument, Nested Γ (locatedArguments as Γ)
  | [] => .nil
  | ⟨_,value,_⟩ :: as => (value.nested Γ).append (arguments_nested Γ as)

lemma lambdaParams_nested (Γ : Env) : ∀ ps : List LambdaParam, Nested Γ (locatedLambdaParams ps Γ)
  | [] => .nil
  | ⟨_,type,_⟩ :: ps => (optionalType_nested Γ type).append (lambdaParams_nested Γ ps)

lemma LambdaBody.nested (Γ : Env) : ∀ (b : LambdaBody) {F : Frame}, (∀ D ∈ F, D.node = none) → Nested Γ (b.located F Γ)
  | .expr e, F, hF => (e.nested (F :: Γ)).params hF
  | .block b, _, hF => b.nested Γ hF

/-- A block opens a scope for the names of `F` and for its own. -/
theorem Block.nested (Γ : Env) : ∀ (b : Block) {F : Frame}, (∀ D ∈ F, D.node = none) → Nested Γ (b.located F Γ)
  | ⟨stmts,_⟩, _, hF => (stmts_nested _ stmts).stmts hF

lemma stmts_nested (Γ : Env) : ∀ ss : List Stmt, Nested Γ (locatedStmts ss Γ)
  | [] => .nil
  | s :: ss => (s.nested Γ).append (stmts_nested Γ ss)

lemma Stmt.nested (Γ : Env) : ∀ s : Stmt, Nested Γ (s.located Γ)
  | ⟨_,.decl d⟩ => d.nested Γ
  | ⟨_,.assign target value⟩ => (target.nested Γ).append (value.nested Γ)
  | ⟨_,.expr e⟩ => e.nested Γ
  | ⟨_,.ret none⟩ => .nil
  | ⟨_,.ret (some e)⟩ => e.nested Γ
  | ⟨_,.cond c t none⟩ => (c.nested Γ).append (t.nested Γ (F := []) nofun)
  | ⟨_,.cond c t (some e)⟩ => ((c.nested Γ).append (t.nested Γ (F := []) nofun)).append (e.nested Γ)
  | ⟨_,.loop c b⟩ => (c.nested Γ).append (b.nested Γ (F := []) nofun)
  | ⟨_,.block b⟩ => b.nested Γ (F := []) nofun

/-- A declaration stands in the scope that it is visible in. -/
theorem Decl.nested (Γ : Env) : ∀ d : Decl, Nested Γ (d.located Γ)
  | .var ⟨_,_,_,_,type,init,_⟩ => ((optionalType_nested Γ type).append (init.nested Γ)).append (.decl Γ _)
  | .const ⟨_,_,_,type,value,_⟩ => ((optionalType_nested Γ type).append (value.nested Γ)).append (.decl Γ _)
  | .func ⟨_,_,_,params,ret,body,_⟩ =>
    (((params_nested Γ params).append (optionalType_nested Γ ret)).append (body.nested Γ node_of_mem_params)).append (.decl Γ _)

lemma params_nested (Γ : Env) : ∀ ps : List Param, Nested Γ (locatedParams ps Γ)
  | [] => .nil
  | ⟨_,_,_,type,_⟩ :: ps => (type.nested Γ).append (params_nested Γ ps)

end

lemma decls_nested (Γ : Env) : ∀ ds : List Decl, Nested Γ (ds.flatMap fun d => d.located Γ)
  | [] => .nil
  | d :: ds => (d.nested Γ).append (decls_nested Γ ds)

/-- A declaration that is inside of an expression can be seen only there. -/
theorem Module.mem_nodes_of_visible {m : Module} (hnodup : (m.nodes.map Node.id).Nodup) {n : Node} {Γ : Env}
    (hn : (n, Γ) ∈ m.located) {F : Frame} (hF : F ∈ Γ) {D : Declarator} (hD : D ∈ F) {i : NodeId}
    (hi : D.node = some i) {e : Expr} (he : Node.expr e ∈ m.nodes) (hid : i ∈ e.ids) : n ∈ e.nodes := by
  have hlocated := m.map_fst_located
  rcases (decls_nested m.env m.decls).inside (hlocated.symm ▸ hnodup) n Γ hn F hF D hD i hi with
    ⟨F',hF',hD'⟩ | ⟨-,hinside⟩
  · -- the declarations of the module are in no expression
    obtain rfl := mem_singleton.1 hF'
    obtain ⟨d,hd,rfl⟩ := mem_map.1 hD'
    obtain rfl := Option.some.inj hi
    rw [Module.nodes, ← flatMap_toStmt] at hnodup he
    have hdirect : d ∈ (m.decls.map Decl.toStmt).filterMap Stmt.decl? := by rwa [filterMap_toStmt]
    exact absurd hid (Stmt.notMem_ids_of_direct hnodup hdirect he)
  · exact hinside e (hlocated.symm ▸ he) hid

end Opal
