import Opal.Proofs.EnclosingScopes
import Opal.Proofs.LifeCycles
import Opal.Proofs.NodePositions

/-!
# No use before initialization

A name that refers to a variable stands after its declaration, or in the body of a function of the module.
-/

namespace Opal

open List

variable {b : BindingId} {x : Expr} {m : Module} {name source : String} {d : VarDecl}

/-! ## Variables are visible where they are used -/

lemma Steps.head?_history_of_bound {s : State} (h : Steps State.Allows .initial s)
    {x : Binding} (hmem : .bound b x ∈ s.journal) : (s.history b).head? = some x.referent := by
  induction h with
  | refl => cases hmem
  | @step s1 e h he ih =>
    rcases mem_cons.1 hmem with rfl | hold
    · rw [State.history, (Steps.step _ h he).entries_of_head? rfl]
      rfl
    · unfold State.history at ih ⊢
      rw [s1.entries_step, reverse_append, head?_append, ih hold]
      rfl

lemma Steps.not_bindsParam {s : State} (h : Steps State.Allows .initial s) {d : Decl}
    (hmem : .introduced d b ∈ s.journal) : ¬ s.BindsParam b := by
  rintro ⟨x,t,mutable,hbound,hx⟩
  have heq := (h.head?_history hmem).symm.trans (h.head?_history_of_bound hbound)
  rw [hx] at heq
  cases d <;> cases heq

lemma Env.mem_of_resolve? {Γ : Env} {D : Declarator} (h : Γ.resolve? name = some D) : ∃ F ∈ Γ, D ∈ F := by
  obtain ⟨F,hF,hD⟩ := exists_of_findSome?_eq_some h
  unfold Frame.accepted? at hD
  split at hD
  · cases hD
  · exact ⟨F,hF,mem_of_find?_eq_some hD⟩

/-- The declaration that introduces what a name refers to can be seen where the name is. -/
theorem Module.visible_of_refersTo (h : Module.parse source = .ok m)
    (hx : Node.expr x ∈ m.nodes) (hb : m.final.refersTo[x.id]? = some b) {id : NodeId}
    (hid : m.final.introduces[id]? = some b) : ∃ Γ F D, (Node.expr x, Γ) ∈ m.located ∧ F ∈ Γ ∧ D ∈ F ∧ D.node = some id := by
  have hnodup := m.nodup_of_parse h
  obtain ⟨horderly,-⟩ := m.run_orderly hnodup
  obtain ⟨hadvances,-⟩ := m.run_advances h
  change m.final.Orderly m.located at horderly
  change Advances m.nodes [] .initial m.final at hadvances
  obtain ⟨span,name,Γ,D,hmem,hD,hbinds,hparam⟩ := horderly.ledger.resolves x.id b hb
  obtain ⟨d,rfl,hd⟩ := horderly.ledger.introduces id b hid
  obtain ⟨F,hF,hDF⟩ := Env.mem_of_resolve? hD
  have hnode : Node.expr ⟨x.id,span,.name name⟩ ∈ m.nodes :=
    m.map_fst_located ▸ mem_map_of_mem hmem
  rw [inj_on_of_nodup_map hnodup hnode hx rfl] at hmem
  refine ⟨Γ,F,D,hmem,hF,hDF,?_⟩
  cases hn : D.node with
  | none => exact absurd (hparam hn) (hadvances.steps.not_bindsParam hd)
  | some i =>
    obtain ⟨d',rfl,hd'⟩ := hbinds.2 i hn
    rw [horderly.ledger.unique d' d b hd' hd]

/-- A variable that is declared inside of an expression is used only there. -/
theorem Module.mem_nodes_of_use (h : Module.parse source = .ok m) {e : Expr}
    (hx : Node.expr x ∈ m.nodes) (he : Node.expr e ∈ m.nodes)
    (hd : Node.decl (.var d) ∈ e.nodes) (hb : m.final.refersTo[x.id]? = some b)
    (hid : m.final.introduces[d.id]? = some b) : Node.expr x ∈ e.nodes := by
  obtain ⟨Γ,F,D,hmem,hF,hD,hnode⟩ := m.visible_of_refersTo h hx hb hid
  exact Module.mem_nodes_of_visible (m.nodup_of_parse h) hmem hF hD hnode he (id_mem_of_decl hd)

/-! ## The order of the examination -/

lemma Module.scopeRun_of_parse (h : Module.parse source = .ok m) :
    ∃ s1, ScopeRun m.decls (m.checkOrder.map Decl.toStmt) .initial s1 m.final := by
  obtain ⟨s1,hscope,-⟩ := m.exists_scopeRun (m.numbered_of_parse h).2 (ready_initial (m.nodup_of_parse h)) calm_initial
  exact ⟨s1,hscope⟩

lemma Module.signatures_avoid (h : Module.parse source = .ok m)
    (hd : Decl.var d ∈ m.decls) (hid : m.final.introduces[d.id]? = some b) : m.final.Avoids (m.decls.flatMap Decl.head) b := by
  obtain ⟨s1,hscope⟩ := m.scopeRun_of_parse h
  have hst : (Decl.var d).toStmt ∈ m.checkOrder.map Decl.toStmt :=
    mem_map_of_mem (m.checkOrder_perm.mem_iff.2 hd)
  rw [← nil_append (m.checkOrder.map Decl.toStmt)] at hscope
  exact (hscope.avoids (.inl ⟨_,hst,rfl⟩) hid).1

lemma pair_sublist_append_cases {α : Type} {a b : α} {M N : List α} (h : [a, b].Sublist (M ++ N)) :
    [a, b].Sublist M ∨ a ∈ M ∧ b ∈ N ∨ [a, b].Sublist N := by
  obtain ⟨l1,l2,heq,h1,h2⟩ := sublist_append_iff.1 h
  match l1, heq with
  | [], heq => exact .inr (.inr (heq ▸ h2))
  | [c], heq =>
    obtain ⟨rfl,rfl⟩ := cons.inj heq
    exact .inr (.inl ⟨singleton_sublist.1 h1,singleton_sublist.1 h2⟩)
  | c :: c' :: l1, heq =>
    obtain ⟨rfl,rfl,rfl,-⟩ : a = c ∧ b = c' ∧ l1 = [] ∧ l2 = [] := by simpa using heq
    exact .inl h1

lemma Module.stop_le_start (h : Module.parse source = .ok m)
    (hform : x.form = .name name) {n : Node} (hpair : [n, .expr x].Sublist m.nodes) : n.span.stop ≤ x.span.start := by
  have hleads := (m.leads_of_parse h).sublist hpair
  exact rel_of_pairwise_cons hleads (mem_singleton_self _) x name rfl hform

/-- A variable of the module's data that is used in a function is one of the module's own variables, and is used in the
body. -/
theorem Module.direct_of_use (h : Module.parse source = .ok m)
    (hx : Node.expr x ∈ (m.decls.filter (·.isFunction)).flatMap Decl.nodes)
    (hform : x.form = .name name) (htyped : m.final.typeAt x ≠ none)
    (hd : Node.decl (.var d) ∈ (m.decls.filter (!·.isFunction)).flatMap Decl.nodes)
    (hb : m.final.refersTo[x.id]? = some b) (hid : m.final.introduces[d.id]? = some b) :
    Decl.var d ∈ m.decls ∧ ∃ f, Decl.func f ∈ m.decls ∧ Node.expr x ∈ f.body.nodes := by
  have hnodup := nodup_of_map_id (m.nodup_of_parse h)
  have horder := (m.checkOrder_perm.flatMap_right Decl.nodes).nodup_iff.2 hnodup
  rw [Module.checkOrder, flatMap_append] at horder
  have hall {p : Decl → Bool} : (m.decls.filter p).flatMap Decl.nodes ⊆ m.nodes :=
    (filter_sublist.flatMap _).subset
  -- a variable inside of an expression of the data is used only there, not in a function
  have hnested {j : Decl} (hj : j ∈ m.decls.filter (!·.isFunction)) {P : List Node} [hclosed : Closed P]
      (hP : Enclosed P) (hsub : P ⊆ j.nodes) (hd : Node.decl (.var d) ∈ P) : False := by
    have hdata : P ⊆ (m.decls.filter (!·.isFunction)).flatMap Decl.nodes := fun n hn =>
      mem_flatMap.2 ⟨j,hj,hsub hn⟩
    obtain ⟨e,he,hde⟩ := hP _ hd
    have hxe := m.mem_nodes_of_use h (hall hx) (hall (hdata he)) hde hb hid
    exact disjoint_of_nodup_append horder (hdata (hclosed.sub e he _ hxe)) hx
  obtain ⟨i,hi,hxi⟩ := mem_flatMap.1 hx
  obtain ⟨hi,hfunc⟩ := mem_filter.1 hi
  obtain ⟨j,hj,hdj⟩ := mem_flatMap.1 hd
  have hjm := (mem_filter.1 hj).1
  cases j with
  | func => cases (mem_filter.1 hj).2
  | const c =>
    rw [Decl.nodes, c.nodes_eq] at hdj
    rcases mem_append.1 hdj with hdj | hdj
    · exact (hnested hj c.enclosed_parts c.parts_subset hdj).elim
    · cases mem_singleton.1 hdj
  | var v =>
    rw [Decl.nodes, v.nodes_eq] at hdj
    rcases mem_append.1 hdj with hdj | hdj
    · refine (hnested hj v.enclosed_parts (fun n hn => ?_) hdj).elim
      rw [Decl.nodes, v.nodes_eq]
      exact mem_append_left _ hn
    · cases mem_singleton.1 hdj
      refine ⟨hjm,?_⟩
      cases i with
      | var | const => cases hfunc
      | func f =>
        refine ⟨f,hi,?_⟩
        rw [Decl.nodes, f.nodes_eq] at hxi
        rcases mem_append.1 hxi with hxi | hxi
        · rcases mem_append.1 hxi with hxi | hxi
          · have hhead : Node.expr x ∈ m.decls.flatMap Decl.head :=
              mem_flatMap.2 ⟨.func f,hi,hxi⟩
            exact absurd hb (m.signatures_avoid h hjm hid x name hhead hform htyped)
          · exact hxi
        · cases mem_singleton.1 hxi

/-- Whether a node declares a variable as `test` says. -/
def Node.isVar (test : VarDecl → Bool) : Node → Bool
  | decl (.var d) => test d
  | _ => false

lemma exists_var_of_any {N : List Node} {test : VarDecl → Bool} (h : N.any (Node.isVar test) = true) :
    ∃ d, Node.decl (.var d) ∈ N ∧ test d = true := by
  obtain ⟨n,hn,htest⟩ := any_eq_true.1 h
  unfold Node.isVar at htest
  split at htest
  · next d => exact ⟨d,hn,htest⟩
  · cases htest

/-- A name with a recorded type that refers to a variable stands after the declaration of the variable, or in the body
of one of the module's functions if the variable is one of the module. -/
theorem Module.stop_le_start_of_use {source : String} {m : Module} (h : Module.parse source = .ok m) {x : Expr}
    {name : String} (hx : Node.expr x ∈ m.nodes) (hform : x.form = .name name)
    (htyped : (m.check.typeAt x).isSome = true) {b : BindingId} (hb : m.check.refersTo[x.id]? = some b)
    {d : VarDecl} (hd : Node.decl (.var d) ∈ m.nodes) (hid : m.check.introduces[d.id]? = some b) :
    (Decl.var d ∈ m.decls ∧ ∃ f, Decl.func f ∈ m.decls ∧ Node.expr x ∈ f.body.nodes) ∨ d.span.stop ≤ x.span.start := by
  obtain ⟨s1,hscope⟩ := m.scopeRun_of_parse h
  have htyped : m.final.typeAt x ≠ none := Option.isSome_iff_ne_none.1 htyped
  have hperm := m.checkOrder_perm.flatMap_right Decl.nodes
  have hseq := hscope.inSequence
  rw [flatMap_toStmt] at hseq
  rcases hseq x name d b (hperm.mem_iff.2 hx) hform htyped hb (hperm.mem_iff.2 hd) hid with
    hpair | ⟨e,he,hde,hxe⟩
  · rw [Module.checkOrder, flatMap_append] at hpair
    -- the data of the module, and then its functions
    rcases pair_sublist_append_cases hpair with hpair | ⟨hd,hx⟩ | hpair
    · exact .inr (m.stop_le_start h hform (hpair.trans (filter_sublist.flatMap _)))
    · exact .inl (m.direct_of_use h hx hform htyped hd hb hid)
    · exact .inr (m.stop_le_start h hform (hpair.trans (filter_sublist.flatMap _)))
  · exact absurd (m.mem_nodes_of_use h hx (hperm.mem_iff.1 he) hde hb hid) hxe

/-- A variable that is assigned to in a lambda, in a function, in a loop. -/
theorem Module.stop_le_start_of_use_captured : ∃ m x d b, Module.parse
      "def f() \x7b let mut b: u8 = 1; while true \x7b def g() \x7b let h = () => \x7b b = 2; \x7d; \x7d \x7d \x7d" = .ok m ∧
    Node.expr x ∈ m.nodes ∧ x.form = .name "b" ∧ (m.check.typeAt x).isSome = true ∧
      m.check.refersTo[x.id]? = some b ∧ Node.decl (.var d) ∈ m.nodes ∧ m.check.introduces[d.id]? = some b ∧
        d.span.stop ≤ x.span.start := by
  obtain ⟨m,hm,htest⟩ := Module.exists_of_test
    "def f() \x7b let mut b: u8 = 1; while true \x7b def g() \x7b let h = () => \x7b b = 2; \x7d; \x7d \x7d \x7d"
    (fun m => m.decls.all (·.isFunction) && m.nodes.any (Node.isExpr fun e => e.isName "b" &&
      (m.check.typeAt e).isSome && (m.check.refersTo[e.id]?.any fun b => m.nodes.any (Node.isVar fun d =>
        m.check.introduces[d.id]? == some b)))) (by decide +kernel)
  obtain ⟨hfunctions,htest⟩ := Bool.and_eq_true_iff.1 htest
  obtain ⟨x,hx,htest⟩ := exists_expr_of_any htest
  obtain ⟨htest,hrefers⟩ := Bool.and_eq_true_iff.1 htest
  obtain ⟨hname,htyped⟩ := Bool.and_eq_true_iff.1 htest
  have hform := Expr.form_of_isName hname
  obtain ⟨b,hb,hrefers⟩ := (Option.any_eq_true _ _).1 hrefers
  obtain ⟨d,hd,hrefers⟩ := exists_var_of_any hrefers
  have hid := beq_iff_eq.1 hrefers
  refine ⟨m,x,d,b,hm,hx,hform,htyped,hb,hd,hid,?_⟩
  -- the variable is not one of the module, which has only functions
  refine (m.stop_le_start_of_use hm hx hform htyped hb hd hid).resolve_left fun hdirect => ?_
  cases all_eq_true.1 hfunctions _ hdirect.1

end Opal
