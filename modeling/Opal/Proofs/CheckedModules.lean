import Opal.Check.Module
import Opal.Proofs.ParsedReadings
import Opal.Proofs.Trees

/-!
# Checked modules

A module is one scope, so its check is a step from the state in which nothing is known.
-/

namespace Opal

open List

lemma Module.checkOrder_perm (m : Module) : m.checkOrder.Perm m.decls := by
  have h := filter_append_perm Decl.isFunction m.decls
  exact perm_append_comm.trans h

def Decl.toStmt (d : Decl) : Stmt :=
  ⟨d.span,.decl d⟩

lemma filterMap_toStmt (D : List Decl) : (D.map Decl.toStmt).filterMap Stmt.decl? = D := by
  induction D with
  | nil => rfl
  | cons d D ih => rw [map_cons, filterMap_cons_some (by rfl), ih]

lemma flatMap_toStmt (D : List Decl) : (D.map Decl.toStmt).flatMap Stmt.nodes = D.flatMap Decl.nodes := by
  induction D with
  | nil => rfl
  | cons d D ih =>
    rw [map_cons, flatMap_cons, ih, flatMap_cons, Stmt.nodes_of_decl (d := d) rfl]

lemma forM_toStmt (D : List Decl) : ((D.map Decl.toStmt).forM fun st => reported st.check) =
      D.forM fun d => reported d.check := by
  induction D with
  | nil => rfl
  | cons d D ih =>
    have hd : d.toStmt.check = d.check := Stmt.check_of_decl rfl
    rw [map_cons, List.forM, List.forM, ih, hd]

/-- A module is a scope, whose declarations are examined in the order in which they are checked. -/
theorem Module.exists_scopeRun (m : Module) (hshaped : m.Shaped) {s : State} (hready : Ready m.nodes s)
    (hcalm : Calm s) : ∃ s1, ScopeRun m.decls (m.checkOrder.map Decl.toStmt) s s1 (m.run.run s).2 ∧
      (m.run.run s).2.Covers (m.checkOrder.flatMap Decl.nodes) := by
  have hperm : m.decls.Perm ((m.checkOrder.map Decl.toStmt).filterMap Stmt.decl?) := by
    rw [filterMap_toStmt]
    exact m.checkOrder_perm.symm
  have hall (st) (hst : st ∈ m.checkOrder.map Decl.toStmt) : st.Examined := by
    obtain ⟨d,hd,rfl⟩ := mem_map.1 hst
    exact d.examined (hshaped d (m.checkOrder_perm.mem_iff.1 hd))
  have hready' := hready.perm (m.checkOrder_perm.flatMap_right Decl.nodes).symm
  rw [← flatMap_toStmt] at hready'
  obtain ⟨s1,s3,hrun,hscope,hcovers⟩ := Opal.exists_scopeRun hperm hall hready' hcalm
  rw [forM_toStmt] at hrun
  rw [flatMap_toStmt] at hcovers
  obtain rfl : (m.run.run s).2 = s3 := hrun
  exact ⟨s1,hscope,hcovers⟩

/-- From a state that knows nothing of a module, its check advances through all its nodes and covers them. -/
theorem Module.run_examines (m : Module) (hshaped : m.Shaped) (s : State) (hready : Ready m.nodes s)
    (hcalm : Calm s) : Advances m.nodes [] s (m.run.run s).2 ∧ (m.run.run s).2.Covers m.nodes := by
  have hperm := m.checkOrder_perm.flatMap_right Decl.nodes
  obtain ⟨s1,hscope,hcovers⟩ := m.exists_scopeRun hshaped hready hcalm
  have hstep := (hscope.proceeds hready.sound).toAdvances
  rw [flatMap_toStmt] at hstep
  exact ⟨hstep.perm hperm,hcovers.perm hperm⟩

/-! ## The start and the end -/

lemma referent?_initial (b : BindingId) : State.initial.referent? b = none := by
  simp [Findings.referent?, State.initial, ScopeTree.initial]

lemma constant?_initial (b : BindingId) : State.initial.constant? b = none := by
  simp [State.constant?, State.initial]

/-- Nothing is known at the start, so nothing is wrong. -/
theorem sound_initial : Sound State.initial where
  wellFormed := by simp [referent?_initial]
  constant := by simp [referent?_initial]
  declared := by simp [constant?_initial]
  nodup := by simp [constant?_initial]
  apart := by simp [constant?_initial]
  stages := by simp [constant?_initial]
  results := by simp [State.initial]

lemma calm_initial : Calm State.initial := by
  constructor <;> simp [referent?_initial]

lemma ready_initial {N : List Node} (h : (N.map Node.id).Nodup) : Ready N State.initial where
  sound := sound_initial
  nodup := h
  untyped _ _ := by simp [State.initial]
  undeclared _ _ := by simp [State.initial]
  apart b d _ _ hd := by
    cases hd

/-- The check of a module examines all its nodes. -/
theorem Module.run_advances {source : String} {m : Module} (h : Module.parse source = .ok m) :
    Advances m.nodes [] .initial (m.run .initial).2 ∧ (m.run .initial).2.Covers m.nodes :=
  m.run_examines (m.numbered_of_parse h).2 .initial (ready_initial (m.nodup_of_parse h)) calm_initial

/-- Every constant stems from a declaration among the nodes. -/
theorem Advances.const_declared {N : List Node} {own : List BindingId} {s : State}
    (h : Advances N own .initial s) {b : BindingId} {type : Option Ty} {stage : ConstStage}
    (hr : s.referent? b = some (.const type stage)) :
    ∃ d, s.constant? b = some d ∧ Node.decl (.const d) ∈ N ∧ s.introduces[d.id]? = some b := by
  obtain ⟨d,hd⟩ := h.sound.constant b type stage hr
  refine ⟨d,hd,?_,(h.sound.declared b d hd).1⟩
  have hself : Node.decl (.const d) ∈ d.nodes := by simp [d.nodes_eq]
  rcases h.newConstants b d hd with hold | ⟨-,hsub | ⟨d0,⟨b0,-,hd0,-⟩,-⟩⟩
  · cases (constant?_initial b).symm.trans hold
  · exact hsub hself
  · cases (constant?_initial b0).symm.trans hd0

lemma Findings.not_failing {f : Findings} (h : f.isClean = true) : ¬ f.Failing := by
  simpa [Findings.isClean, Findings.Failing] using h

instance Module.closed_nodes (m : Module) : Closed m.nodes := by
  rw [Module.nodes]
  infer_instance

def Expr.isName (name : String) (e : Expr) : Bool :=
  match e.form with
  | .name n => n == name
  | _ => false

lemma Expr.form_of_isName {name : String} {e : Expr} (h : e.isName name = true) : e.form = .name name := by
  unfold isName at h
  split at h
  · next n hform => rw [hform, beq_iff_eq.1 h]
  · cases h

def Expr.applies (op : BinaryOp) (e : Expr) : Bool :=
  match e.form with
  | .binary o _ _ => o == op
  | _ => false

lemma Expr.form_of_applies {op : BinaryOp} {e : Expr} (h : e.applies op = true) : ∃ l r, e.form = .binary op l r := by
  unfold applies at h
  split at h
  · next o l r hform => exact ⟨l,r,by rw [hform, beq_iff_eq.1 h]⟩
  · cases h

end Opal
