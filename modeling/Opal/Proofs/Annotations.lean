import Opal.Proofs.CheckedModules

/-!
# Recorded types

The recorded types obey the typing rules, whether or not something is wrong. If nothing is, the expressions without one are
those that a construct looks through.
-/

namespace Opal

/-- Every recorded type is one that an expression can have, and obeys the rule of its expression; of a literal that is
negated, the negated value is in range. -/
theorem Module.check_obeys {source : String} {m : Module} (h : Module.parse source = .ok m) (e : Expr)
    (he : Node.expr e ∈ m.nodes) (t : Ty) (ht : m.check.typeAt e = some t) :
    t.isResult = true ∧ (m.check.Obeys e t ∨ Findings.ObeysNegated m.nodes e t) := by
  exact (m.run_advances h).1.obeys e he t ht

/-- A product in a module with an error. -/
theorem Module.check_obeys_product : ∃ m e l r, Module.parse "let a: i8 = 3; let b = 2 * a < -(a); let c: u8 = a;" = .ok m ∧
      m.check.isClean = false ∧ Node.expr e ∈ m.nodes ∧ e.form = .binary .mul l r ∧
        m.check.typeAt e = some (.int .i8) ∧ m.check.ObeysBinary .mul l r (.int .i8) := by
  obtain ⟨m,hm,htest⟩ := Module.exists_of_test "let a: i8 = 3; let b = 2 * a < -(a); let c: u8 = a;"
    (fun m => !m.check.isClean && m.nodes.any (Node.isExpr fun e =>
      e.applies .mul && m.check.typeAt e == some (.int .i8))) (by decide +kernel)
  obtain ⟨hbad,hany⟩ := Bool.and_eq_true_iff.1 htest
  obtain ⟨e,he,htest⟩ := exists_expr_of_any hany
  obtain ⟨hmul,ht⟩ := Bool.and_eq_true_iff.1 htest
  have ht := beq_iff_eq.1 ht
  obtain ⟨l,r,hform⟩ := Expr.form_of_applies hmul
  rcases (m.check_obeys hm e he _ ht).2 with hobeys | ⟨p,text,i,n,-,-,hint,-⟩
  · rw [Findings.Obeys, hform] at hobeys
    exact ⟨m,e,l,r,hm,by simpa using hbad,he,hform,ht,hobeys⟩
  · cases hform.symm.trans hint

/-- If nothing is wrong, an expression has no recorded type exactly if a construct looks through it. So all
have one exactly if nothing is looked through. -/
theorem Module.untyped_iff_skipped {source : String} {m : Module} (h : Module.parse source = .ok m)
    (hclean : m.check.isClean = true) :
    (∀ e, Node.expr e ∈ m.nodes → (m.check.typeAt e = none ↔ ∃ p, Node.expr p ∈ m.nodes ∧ e ∈ p.skips m.check)) ∧
    ((∀ e, Node.expr e ∈ m.nodes → (m.check.typeAt e).isSome) ↔ ∀ p, Node.expr p ∈ m.nodes → p.skips m.check = []) := by
  have hcomplete : m.check.Complete m.nodes := (m.run_advances h).2 (Findings.not_failing hclean)
  have hiff (e) (he : Node.expr e ∈ m.nodes) : m.check.typeAt e = none ↔ ∃ p, Node.expr p ∈ m.nodes ∧ e ∈ p.skips m.check :=
    ⟨hcomplete.typed e he,fun ⟨p,hp,hskip⟩ => hcomplete.skipped p hp e hskip⟩
  refine ⟨hiff,fun hall p hp => ?_,fun hnone e he => ?_⟩
  · refine List.eq_nil_iff_forall_not_mem.2 fun x hx => ?_
    have hmem := Closed.part hp (Findings.mem_nodes_of_mem_skips hx)
    have hsome := hall x hmem
    rw [hcomplete.skipped p hp x hx] at hsome
    cases hsome
  · rw [Option.isSome_iff_ne_none]
    intro ht
    obtain ⟨p,hp,hskip⟩ := (hiff e he).1 ht
    rw [hnone p hp] at hskip
    cases hskip

/-- Parentheses around a function that is called, and around a literal that is negated. -/
theorem Module.untyped_iff_skipped_parens : ∃ m, Module.parse
      "def f(x: i8) -> i8 \x7b return x; \x7d let a: i8 = ((f))(x: -(5));" = .ok m ∧
    m.check.isClean = true ∧ ∃ e p, Node.expr e ∈ m.nodes ∧ m.check.typeAt e = none ∧
      Node.expr p ∈ m.nodes ∧ e ∈ p.skips m.check := by
  obtain ⟨m,hm,htest⟩ := Module.exists_of_test "def f(x: i8) -> i8 \x7b return x; \x7d let a: i8 = ((f))(x: -(5));"
    (fun m => m.check.isClean && m.nodes.any (Node.isExpr fun e => m.check.typeAt e == none))
    (by decide +kernel)
  obtain ⟨hclean,hany⟩ := Bool.and_eq_true_iff.1 htest
  obtain ⟨e,he,ht⟩ := exists_expr_of_any hany
  have ht := beq_iff_eq.1 ht
  obtain ⟨p,hp,hskip⟩ := ((m.untyped_iff_skipped hm hclean).1 e he).1 ht
  exact ⟨m,hm,hclean,e,p,he,ht,hp,hskip⟩

/-- The literal in `-(5)` has no recorded type, although nothing is wrong. -/
theorem Module.negated_literal_untyped : ∃ m e, Module.parse "let a: i8 = -(5);" = .ok m ∧
    m.check.isClean = true ∧ Node.expr e ∈ m.nodes ∧ e.form = .int "5" ∧ m.check.typeAt e = none := by
  obtain ⟨m,hm,htest⟩ := Module.exists_of_test "let a: i8 = -(5);" (fun m => m.check.isClean && m.nodes.any (Node.isExpr fun e =>
      e.literal? == some "5" && e.insideParens.isEmpty && m.check.typeAt e == none))
    (by decide +kernel)
  obtain ⟨hclean,hany⟩ := Bool.and_eq_true_iff.1 htest
  obtain ⟨e,he,htest⟩ := exists_expr_of_any hany
  simp only [Bool.and_eq_true, beq_iff_eq, List.isEmpty_iff] at htest
  obtain ⟨⟨hlit,hinside⟩,ht⟩ := htest
  have hform : e.form = .int "5" := by
    rcases Expr.literal_cases hlit with hint | ⟨y,hparen,-⟩
    · exact hint
    · obtain ⟨id,span,form⟩ := e
      obtain rfl : form = .paren y := hparen
      cases hinside
  exact ⟨m,e,hm,hclean,he,hform,ht⟩

end Opal
