import Opal.Proofs.ChargedTrees
import Opal.Proofs.CheckedModules

/-!
# The errors of a module

The errors of a module can be told apart by the constructs around them. A mismatch names two different types, but for a `return`
of nothing where nothing is returned.
-/

namespace Opal

open List

variable {source : String} {m : Module}

namespace Module

variable {m : Module}

lemma sites_toStmt (D : List Decl) : (D.map Decl.toStmt).flatMap Stmt.sites = [] := by
  refine flatMap_eq_nil_iff.2 fun st hst => ?_
  obtain ⟨d,-,rfl⟩ := mem_map.1 hst
  exact Stmt.sites_of_decl rfl

lemma run_charged {region : Span} (h : ∀ d ∈ m.decls, PlacedIn region d.readings) :
    ChargedRun (m.nodes.map Node.id) (budget m.nodes) m.run := by
  have hdecls : ((m.checkOrder.map Decl.toStmt).filterMap Stmt.decl?).Perm m.decls := by
    rw [filterMap_toStmt]
    exact m.checkOrder_perm
  have hpays (st) (hst : st ∈ m.checkOrder.map Decl.toStmt) : st.Pays := by
    obtain ⟨d,hd,rfl⟩ := mem_map.1 hst
    exact d.pays d.span (h d (m.checkOrder_perm.mem_iff.1 hd))
  have hscope := scope_charged hdecls (fun d hd => Decl.placed_span (h d hd)) hpays
  rw [flatMap_toStmt, forM_toStmt, sites_toStmt] at hscope
  have hnodes : (m.checkOrder.flatMap Decl.nodes).Perm m.nodes := m.checkOrder_perm.flatMap_right _
  rw [budget_perm hnodes] at hscope
  exact hscope.mono (hnodes.map _).subperm (add_zero _).le

lemma prepared_initial (hnodup : (m.nodes.map Node.id).Nodup) : Prepared (m.nodes.map Node.id) State.initial where
  nodup := hnodup
  fresh _ _ := Std.TreeMap.getElem?_emptyc
  placed b d hd := by
    cases hd

lemma errors_charged (h : Module.parse source = .ok m) :
    ∃ C : List Site, Forall₂ Site.Admits C m.check.errors.toList ∧ C.Subperm m.sites := by
  obtain ⟨region,hplaced⟩ := m.placed_of_parse h
  obtain ⟨L,C,herrors,hadmits,hle⟩ := (run_charged hplaced _ (prepared_initial (m.nodup_of_parse h))).errors
  refine ⟨C,?_,?_⟩
  · have hall : m.check.errors.toList = L := herrors
    rwa [hall]
  · rw [← Multiset.coe_le]
    calc (C : Multiset Site) ≤ C + (m.run.run .initial).2.pending := Multiset.le_add_right ..
      _ ≤ State.initial.pending + budget m.nodes := hle
      _ = m.sites := zero_add _

lemma exists_mismatch (source expected found : String) (h : (Module.parse source).toOption.any (fun m =>
      m.check.errors.toList.any fun e => e.cause == .typeMismatch expected found) = true) :
    ∃ m e, Module.parse source = .ok m ∧ e ∈ m.check.errors ∧ e.cause = .typeMismatch expected found := by
  obtain ⟨m,hm,htest⟩ := Module.exists_of_test source _ h
  obtain ⟨e,he,hcause⟩ := any_eq_true.1 htest
  exact ⟨m,e,hm,Array.mem_toList_iff.1 he,beq_iff_eq.1 hcause⟩

/-- A mismatch names two different types. The exception is a `return` with a value that is nothing, where nothing is
returned. -/
theorem mismatch_names_different_types (h : Module.parse source = .ok m)
    {e : SemanticError} (he : e ∈ m.check.errors) {expected found : String}
    (hcause : e.cause = .typeMismatch expected found) :
    expected ≠ found ∨ expected = "void" ∧ found = "void" ∧
      ∃ span v, Site.stmt ⟨span,.ret (some v)⟩ ∈ m.sites ∧ e.span = v.span := by
  obtain ⟨C,hadmits,hsub⟩ := errors_charged h
  obtain ⟨i,hi,rfl⟩ := mem_iff_getElem.1 (Array.mem_toList_iff.2 he)
  have hlt : i < C.length := hadmits.length_eq ▸ hi
  rcases ((forall₂_iff_get.1 hadmits).2 i hlt hi).2 with hdistinct | ⟨span,v,hsite,herror⟩
  · exact .inl (hdistinct expected found hcause)
  · refine .inr ?_
    change m.check.errors.toList[i] = _ at herror
    rw [herror] at hcause
    cases hcause
    exact ⟨rfl,rfl,span,v,hsite ▸ hsub.subset (get_mem ..),congrArg SemanticError.span herror⟩

/-- A truth value where a number is expected. -/
theorem mismatch_names_different_types_number : ∃ m e, Module.parse "let x: u8 = true;" = .ok m ∧
    e ∈ m.check.errors ∧ e.cause = .typeMismatch "u8" "bool" ∧ ("u8" ≠ "bool" ∨ "u8" = "void" ∧ "bool" = "void" ∧
        ∃ span v, Site.stmt ⟨span,.ret (some v)⟩ ∈ m.sites ∧ e.span = v.span) := by
  obtain ⟨m,e,hm,he,hcause⟩ := exists_mismatch "let x: u8 = true;" "u8" "bool" (by decide +kernel)
  exact ⟨m,e,hm,he,hcause,mismatch_names_different_types hm he hcause⟩

/-- A function that returns nothing returns the result of one that returns nothing. -/
theorem void_mismatches_void : ∃ m e, Module.parse "def f() \x7b\x7d def g() \x7b return f(); \x7d" = .ok m ∧ e ∈ m.check.errors ∧
      e.cause = .typeMismatch "void" "void" :=
  exists_mismatch _ _ _ (by decide +kernel)

end Module

end Opal
