import Opal.Proofs.ReachedStates

/-!
# What names refer to

A name refers to the first accepted declaration of this name in the innermost scope around it that has one.
-/

namespace Opal

open List

/-- A declaration on record introduces its binding for good. -/
theorem Steps.introduces_of_mem {s : State} (h : Steps State.Allows .initial s) {d : Decl}
    {b : BindingId} (hmem : .introduced d b ∈ s.journal) : s.introduces[d.id]? = some b := by
  induction h with
  | refl => cases hmem
  | @step s1 e h he ih =>
    rcases State.introduced_mem_step hmem with rfl | hold
    · exact (Table.getElem?_insert ..).trans (if_pos rfl)
    · cases e with
      | introduced d' b' =>
        -- a number that is taken is not introduced again
        have hne : d'.id ≠ d.id := by
          intro hid
          have hnone := he.1
          rw [hid, ih hold] at hnone
          cases hnone
        exact ((Table.getElem?_insert ..).trans (if_neg hne)).trans (ih hold)
      | _ => exact ih hold

lemma Env.name_of_resolve? {Γ : Env} {name : String} {D : Declarator} (h : Γ.resolve? name = some D) : D.name = name := by
  obtain ⟨F,-,hF⟩ := exists_of_findSome?_eq_some h
  unfold Frame.accepted? at hF
  split at hF
  · cases hF
  · simpa using find?_some hF

lemma Module.declarator?_eq {m : Module} (hnodup : (m.nodes.map Node.id).Nodup) {n : Node} {Γ : Env}
    (hn : (n, Γ) ∈ m.located) (name : String) : m.declarator? n.id name = Γ.resolve? name := by
  have hids : (m.located.map (·.1.id)).Nodup := by
    rwa [← m.map_fst_located, map_map] at hnodup
  have hfind : m.located.find? (fun x => x.1.id == n.id) = some (n, Γ) := by
    cases hx : m.located.find? fun x => x.1.id == n.id with
    | none => exact absurd (find?_eq_none.1 hx (n, Γ) hn) (by simp)
    | some x =>
      have hid : x.1.id = n.id := by simpa using find?_some hx
      rw [inj_on_of_nodup_map hids (mem_of_find?_eq_some hx) hn hid]
  rw [Module.declarator?, hfind]
  rfl

/-- A name refers to where the source says: to a binding with the name and the span of the declarator which the scopes
around the name give, and if this is a declaration, to the binding that it introduces. -/
theorem Module.resolution_lexical {source : String} {m : Module} (h : Module.parse source = .ok m)
    {id : NodeId} {b : BindingId} (hb : m.check.refersTo[id]? = some b) :
    ∃ span name D x, Node.expr ⟨id,span,.name name⟩ ∈ m.nodes ∧
      m.declarator? id name = some D ∧ m.check.scopes.bindings[b]? = some x ∧
        x.name = name ∧ x.span = D.span ∧ ∀ d ∈ D.node, m.check.introduces[d]? = some b := by
  have hnodup := m.nodup_of_parse h
  obtain ⟨horderly,-⟩ := m.run_orderly hnodup
  obtain ⟨hadvances,-⟩ := m.run_advances h
  obtain ⟨span,name,Γ,D,hmem,hD,⟨x,hx,hname,hspan⟩,hnode⟩ := horderly.ledger.refersTo id b hb
  refine ⟨span,name,D,x,?_,(Module.declarator?_eq hnodup hmem name).trans hD,hx,?_,hspan,?_⟩
  · rw [← m.map_fst_located]
    exact mem_map_of_mem hmem
  · exact hname.trans (Env.name_of_resolve? hD)
  · intro i hi
    obtain ⟨d,rfl,hmem'⟩ := hnode i hi
    exact hadvances.steps.introduces_of_mem hmem'

/-- The name of the constant `b` in the value of `a`, which is first needed where another `b` is declared. -/
theorem Module.resolution_lexical_shadowed : ∃ m, Module.parse
      "def f() \x7b \x7b const b: u8 = 2; let x = a; \x7d const a = b; const b: u8 = 1; \x7d" = .ok m ∧
    ∃ id b D, m.check.refersTo[id]? = some b ∧ m.check.referent? b = some (.const (some (.int .u8)) (.done (.int 1 .u8))) ∧
        m.declarator? id "b" = some D ∧ ∀ d ∈ D.node, m.check.introduces[d]? = some b := by
  obtain ⟨m,hm,htest⟩ := Module.exists_of_test
    "def f() \x7b \x7b const b: u8 = 2; let x = a; \x7d const a = b; const b: u8 = 1; \x7d"
    (fun m => m.nodes.any (Node.isExpr fun e => e.isName "b" && (m.check.refersTo[e.id]?.bind m.check.referent?) ==
        some (.const (some (.int .u8)) (.done (.int 1 .u8))))) (by decide +kernel)
  obtain ⟨e,he,htest⟩ := exists_expr_of_any htest
  obtain ⟨hname,htest⟩ := Bool.and_eq_true_iff.1 htest
  have hform := Expr.form_of_isName hname
  obtain ⟨b,hb,hr⟩ := Option.bind_eq_some_iff.1 (beq_iff_eq.1 htest)
  obtain ⟨span,name,D,x,hmem,hD,-,-,-,hnode⟩ := m.resolution_lexical hm hb
  have heq := inj_on_of_nodup_map (m.nodup_of_parse hm) hmem he rfl
  obtain rfl : name = "b" := by
    obtain ⟨id,espan,form⟩ := e
    cases heq
    exact ExprForm.name.inj hform
  exact ⟨m,hm,e.id,b,D,hb,hr,hD,hnode⟩

end Opal
