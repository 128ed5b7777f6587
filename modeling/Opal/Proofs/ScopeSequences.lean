import Mathlib.Data.List.Flatten
import Opal.Proofs.Hoisting

/-!
# The sequence of a scope

A variable cannot be used before its declaration was examined. So a name that was examined earlier does not mean the variable,
and the examination of a scope keeps uses in sequence.
-/

namespace Opal

open Findings (Agrees)
open List

/-! ## The nodes of a statement -/

/-- A node of a statement is in the signature, or is examined with the statement, or is the declaration itself or a part
of a constant that is evaluated when it is needed. -/
theorem Stmt.mem_nodes_cases (f : Findings) {st : Stmt} {n : Node} (h : n ∈ st.nodes) :
    (∃ d, st.decl? = some d ∧ n ∈ d.head) ∨ n ∈ st.inner f ∨ ∃ d, st.decl? = some d ∧ (n = .decl d ∨
        ∃ c b, d = .const c ∧ f.introduces[c.id]? = some b ∧ n ∈ c.parts) := by
  cases hd : st.decl? with
  | none => exact .inr (.inl (by simpa only [Stmt.inner, hd] using h))
  | some d =>
    rw [Stmt.nodes_of_decl hd, d.nodes_eq f] at h
    rcases mem_append.1 h with h | h
    · rcases mem_append.1 h with h | h
      · exact .inl ⟨d,rfl,h⟩
      · exact .inr (.inl (by simpa only [Stmt.inner, hd] using h))
    · refine .inr (.inr ⟨d,rfl,?_⟩)
      cases d with
      | const c =>
        cases hb : f.introduces[c.id]? with
        | none => exact .inl (by simpa [Decl.deferred, hb] using h)
        | some b =>
          rw [Decl.deferred_const hb, c.nodes_eq] at h
          rcases mem_append.1 h with h | h
          · exact .inr ⟨c,b,rfl,hb,h⟩
          · exact .inl (mem_singleton.1 h)
      | var | func => exact .inl (mem_singleton.1 h)

lemma Decl.enclosed_head (d : Decl) : Enclosed d.head := by
  cases d with
  | func d => exact (enclosed_paramNodes d.params).append (enclosed_optionalTypeNodes d.ret)
  | var | const => exact .nil

lemma Decl.head_sublist (f : Findings) (d : Decl) : d.head.Sublist d.nodes := by
  rw [d.nodes_eq f, append_assoc]
  exact sublist_append_left _ _

lemma Stmt.inner_sublist (f : Findings) (st : Stmt) : (st.inner f).Sublist st.nodes := by
  cases hd : st.decl? with
  | none => simp only [Stmt.inner, hd]; exact .refl _
  | some d =>
    rw [Stmt.nodes_of_decl hd, d.nodes_eq f]
    simp only [Stmt.inner, hd]
    exact (sublist_append_right _ _).trans (sublist_append_left _ _)

lemma sublist_flatMap_of_mem {α β : Type} (f : α → List β) {l : List α} {a : α} (h : a ∈ l) : (f a).Sublist (l.flatMap f) := by
  simpa using (singleton_sublist.2 h).flatMap f

/-! ## One run -/

/-- The examination of the statements `L` of a scope up to `s3`, after their declarations were bound between `s` and
`s1`. -/
structure ScopeRun (D : List Decl) (L : List Stmt) (s s1 s3 : State) : Prop where
  declared : Declared D s s1
  perm : D.Perm (L.filterMap Stmt.decl?)
  nodup : ((L.flatMap Stmt.nodes).map Node.id).Nodup
  ready : Ready (D.flatMap Decl.head ++ L.flatMap (Stmt.inner s1.toFindings)) s1
  step : Proceeds (D.flatMap Decl.head ++ L.flatMap (Stmt.inner s1.toFindings))
    (D.flatMap (Decl.ownFunc s1.toFindings) ++ L.flatMap (Stmt.ownVar s1.toFindings)) s1 s3
  between : Between D s1 s3
  done : ∀ st ∈ L, st.Done s1 s3
  passes : ∀ L1 L2, L = L1 ++ L2 → ∃ s', Passes D L1 L2 s1 s' s3

namespace ScopeRun

variable {D : List Decl} {L L1 L2 : List Stmt} {s s1 s2 s3 : State} {st : Stmt} {v : VarDecl} {b : BindingId}

lemma decl_mem (h : ScopeRun D L s s1 s3) (hst : st ∈ L) {d : Decl} (hd : st.decl? = some d) : d ∈ D :=
  h.perm.mem_iff.2 (mem_filterMap.2 ⟨st,hst,hd⟩)

section

variable (h : ScopeRun D (L1 ++ L2) s s1 s3)
include h

lemma untyped (hpass : Passes D L1 L2 s1 s2 s3)
    (hv : (∃ st ∈ L2, st.decl? = some (.var v)) ∨ Node.decl (.var v) ∈ L2.flatMap (Stmt.inner s1.toFindings))
    (hb : s3.introduces[v.id]? = some b) {r : Referent} (hr : s2.referent? b = some r) : r.type? = none := by
  rcases hv with ⟨st,hst,hd⟩ | hv
  · -- a variable of the scope is bound, but not initialized
    have hmem := h.decl_mem (mem_append_right _ hst) hd
    have hb1 : s1.introduces[v.id]? = some b := (h.between.introduces _ hmem).symm.trans hb
    obtain ⟨r',hr',hwait⟩ := hpass.awaits st hst _ hd b hb1
    obtain rfl := Option.mem_unique hr' hr
    obtain rfl := hwait
    rfl
  · -- one that is declared inside of a statement is not even bound
    have hready := h.ready
    rw [flatMap_append, ← append_assoc] at hready
    have hnone := (hready.right hpass.before).undeclared _ (id_mem_of_decl hv)
    cases (hpass.after.fresh _ b hnone hb).symm.trans hr

/-- A constant that was evaluated before some place stays as it is. -/
theorem agrees_parts (hpass : Passes D L1 L2 s1 s2 s3) {c : ConstDecl}
    {a : BindingId} (hst : st ∈ L1) (hc : st.decl? = some (.const c)) (ha : s1.introduces[c.id]? = some a) :
    s2.ObeysOn c.parts ∧ Agrees c.parts s2.toFindings s3.toFindings := by
  have hmem := h.decl_mem (mem_append_left _ hst) hc
  obtain ⟨hconst,type,stage,hr,hpend,hprog⟩ := h.declared.const_settled hpass.before.toEvolves hmem ha
    ((hpass.done st hst).settled _ hc a ha)
  refine ⟨(hpass.before.sound.parts_of_settled hconst hr hpend hprog).1,hpass.after.agrees ?_ ?_⟩
  · -- the parts of the constant are not examined with a statement
    have hnodup := h.nodup
    rw [flatMap_append, map_append] at hnodup
    have hleft : c.parts ⊆ L1.flatMap Stmt.nodes := fun n hn =>
      (sublist_flatMap_of_mem Stmt.nodes hst).subset (Stmt.nodes_of_decl hc ▸ c.parts_subset hn)
    have hright : L2.flatMap (Stmt.inner s1.toFindings) ⊆ L2.flatMap Stmt.nodes := fun n hn => by
      obtain ⟨st',hst',hn⟩ := mem_flatMap.1 hn
      exact mem_flatMap.2 ⟨st',hst',(st'.inner_sublist _).subset hn⟩
    intro id hid hid'
    exact disjoint_of_nodup_append hnodup (map_subset _ hleft hid) (map_subset _ hright hid')
  · intro b' c' hc' hr' id hid hid'
    have hne : a ≠ b' := by
      rintro rfl
      cases hr.symm.trans hr'
      exact hpend rfl
    refine hpass.before.sound.apart a b' c c' hconst hc' hne ?_ hid'
    rw [c.ids_eq]
    exact mem_append_left _ hid

/-- What was examined before the turn of a declaration does not use the variable: the signatures, and the statements
before it. -/
theorem avoids (hv : (∃ st ∈ L2, st.decl? = some (.var v)) ∨
      Node.decl (.var v) ∈ L2.flatMap (Stmt.inner s1.toFindings)) (hb : s3.introduces[v.id]? = some b) :
    s3.Avoids (D.flatMap Decl.head) b ∧ s3.Avoids (L1.flatMap Stmt.nodes) b := by
  obtain ⟨s2,hpass⟩ := h.passes L1 L2 rfl
  have huntyped (r : Referent) (t : Ty) (hr : s2.referent? b = some r) (ht : r.type? = some t) : t.isResult = false := by
    cases (h.untyped hpass hv hb hr).symm.trans ht
  have hready := h.ready
  rw [flatMap_append, ← append_assoc] at hready
  have hearly : s3.Avoids (D.flatMap Decl.head ++ L1.flatMap (Stmt.inner s1.toFindings)) b :=
    Findings.Avoids.agrees (hpass.before.obeys.avoids huntyped) (Advances.kept hready hpass.before hpass.after.toAdvances)
  have hheads := hearly.subset (subset_append_left _ _)
  refine ⟨hheads,fun x name hx hform => ?_⟩
  obtain ⟨st,hst,hx⟩ := mem_flatMap.1 hx
  rcases Stmt.mem_nodes_cases s1.toFindings hx with ⟨d,hd,hx⟩ | hx | ⟨d,hd,hx | ⟨c,a,rfl,ha,hx⟩⟩
  · have hmem := h.decl_mem (mem_append_left _ hst) hd
    exact hheads x name (mem_flatMap.2 ⟨d,hmem,hx⟩) hform
  · exact hearly x name (mem_append_right _ (mem_flatMap.2 ⟨st,hst,hx⟩)) hform
  · cases hx
  · obtain ⟨hobeys,hagrees⟩ := h.agrees_parts hpass hst hd ha
    exact Findings.Avoids.agrees (hobeys.avoids huntyped) hagrees x name hx hform

end

section

variable (h : ScopeRun D L s s1 s3)
include h

lemma examined_subset : D.flatMap Decl.head ++ L.flatMap (Stmt.inner s1.toFindings) ⊆ L.flatMap Stmt.nodes := by
  intro n hn
  rcases mem_append.1 hn with hn | hn
  · obtain ⟨d,hd,hn⟩ := mem_flatMap.1 hn
    obtain ⟨st,hst,hd⟩ := mem_filterMap.1 (h.perm.mem_iff.1 hd)
    exact mem_flatMap.2 ⟨st,hst,Stmt.nodes_of_decl hd ▸ (d.head_sublist s1.toFindings).subset hn⟩
  · obtain ⟨st,hst,hn⟩ := mem_flatMap.1 hn
    exact mem_flatMap.2 ⟨st,hst,(st.inner_sublist _).subset hn⟩

/-- The uses of a variable whose declaration is examined with a statement come after it. -/
theorem precedes (hst : st ∈ L) (hv : Node.decl (.var v) ∈ st.nodes)
    (hturn : st.decl? = some (.var v) ∨ Node.decl (.var v) ∈ st.inner s1.toFindings)
    (hid : s3.introduces[v.id]? = some b) {x : Expr} {name : String} (hx : Node.expr x ∈ L.flatMap Stmt.nodes)
    (hform : x.form = .name name) (ht : s3.typeAt x ≠ none) (hb : s3.refersTo[x.id]? = some b) :
    Precedes (L.flatMap Stmt.nodes) v x := by
  obtain ⟨L1,L2,rfl⟩ := append_of_mem hst
  have hlater : (∃ st' ∈ st :: L2, st'.decl? = some (.var v)) ∨
      Node.decl (.var v) ∈ (st :: L2).flatMap (Stmt.inner s1.toFindings) :=
    hturn.imp (fun hd => ⟨st,mem_cons_self,hd⟩) fun hmem => mem_flatMap.2 ⟨st,mem_cons_self,hmem⟩
  obtain ⟨hheads,hbefore⟩ := h.avoids hlater hid
  have hsub := h.examined_subset
  rw [flatMap_append, flatMap_cons] at hx
  rcases mem_append.1 hx with hx | hx
  · exact absurd hb (hbefore x name hx hform ht)
  rcases mem_append.1 hx with hx | hx
  · rcases Stmt.mem_nodes_cases s1.toFindings hx with ⟨d,hd,hx⟩ | hx | ⟨d,hd,hx | ⟨c,a,rfl,ha,hx⟩⟩
    · exact absurd hb (hheads x name (mem_flatMap.2 ⟨d,h.decl_mem hst hd,hx⟩) hform ht)
    · rcases hturn with hd | hmem
      · have hb1 := (h.between.introduces _ (h.decl_mem hst hd)).symm.trans hid
        exact absurd hb ((h.done st hst).avoids v hd b hb1 x name hx hform ht)
      · -- both are examined with this statement
        have hinner := sublist_flatMap_of_mem (Stmt.inner s1.toFindings) hst
        have hrun := hinner.trans (sublist_append_right (D.flatMap Decl.head) _)
        exact (h.step.inSequence x name v b (hrun.subset hx) hform ht hb (hrun.subset hmem) hid).within
          (nodup_of_map_id h.ready.nodup) hrun hmem hx
          ((st.inner_sublist _).trans (sublist_flatMap_of_mem Stmt.nodes hst)) hsub
    · cases hx
    · -- nothing is examined with a constant that was accepted
      have hnil : st.inner s1.toFindings = [] := by simp [Stmt.inner, hd, Decl.inner, ha]
      rcases hturn with hd' | hmem
      · cases hd.symm.trans hd'
      · rw [hnil] at hmem
        cases hmem
  · rw [flatMap_append, flatMap_cons]
    exact .inl ((pair_sublist_append hv hx).trans (sublist_append_right _ _))

lemma inSequence : s3.InSequence (L.flatMap Stmt.nodes) := by
  intro x name v b hx hform ht hb hv hid
  obtain ⟨st,hst,hv⟩ := mem_flatMap.1 hv
  have hnodes := sublist_flatMap_of_mem Stmt.nodes hst
  rcases Stmt.mem_nodes_cases s1.toFindings hv with ⟨d,hd,hmem⟩ | hmem | ⟨d,hd,heq | ⟨c,a,rfl,ha,hmem⟩⟩
  · -- a variable in a signature is inside of an expression there
    have hhead : d.head.Sublist (L.flatMap Stmt.nodes) := by
      rw [Stmt.nodes_of_decl hd] at hnodes
      exact (d.head_sublist s1.toFindings).trans hnodes
    by_cases hxd : Node.expr x ∈ d.head
    · have hrun := (sublist_flatMap_of_mem Decl.head (h.decl_mem hst hd)).trans
        (sublist_append_left _ (L.flatMap (Stmt.inner s1.toFindings)))
      exact (h.step.inSequence x name v b (hrun.subset hxd) hform ht hb (hrun.subset hmem) hid).within
        (nodup_of_map_id h.ready.nodup) hrun hmem hxd hhead h.examined_subset
    · exact .of_enclosed d.enclosed_head hhead.subset hmem hxd
  · exact h.precedes hst hv (.inr hmem) hid hx hform ht hb
  · obtain rfl := Node.decl.inj heq
    exact h.precedes hst hv (.inl hd) hid hx hform ht hb
  · -- so is one in a constant, which was examined as a whole
    have hparts : c.parts.Sublist (L.flatMap Stmt.nodes) := by
      rw [Stmt.nodes_of_decl hd, Decl.nodes, c.nodes_eq] at hnodes
      exact (sublist_append_left _ _).trans hnodes
    by_cases hxc : Node.expr x ∈ c.parts
    · obtain ⟨hconst,type,stage,hr,hpend,hprog⟩ := h.declared.const_settled h.step.toEvolves
        (h.decl_mem hst hd) ha ((h.done st hst).settled _ hd a ha)
      have hseq := (h.step.sound.parts_of_settled hconst hr hpend hprog).2
      exact (hseq x name v b hxc hform ht hb hmem hid).mono hparts
    · exact .of_enclosed c.enclosed_parts hparts.subset hmem hxc

lemma settled (d : Decl) (hd : d ∈ D) (b : BindingId) (hb : s1.introduces[d.id]? = some b) : SettledAt s3 b := by
  obtain ⟨st,hst,hd⟩ := mem_filterMap.1 (h.perm.mem_iff.1 hd)
  exact (h.done st hst).settled d hd b hb

lemma fresh (id : NodeId) (b : BindingId) (hnone : s.introduces[id]? = none)
    (hb : s3.introduces[id]? = some b) : s.referent? b = none := by
  cases hid : s1.introduces[id]? with
  | none =>
    have hnone1 := h.step.fresh id b hid hb
    cases hr : s.referent? b with
    | none => rfl
    | some r => cases hnone1.symm.trans (h.declared.referents b r hr)
  | some b' =>
    obtain rfl := Option.mem_unique (h.step.steps.introduces_kept hid) hb
    by_cases hmem : id ∈ D.map Decl.id
    · obtain ⟨d,hd,rfl⟩ := mem_map.1 hmem
      exact (h.declared.accepted d hd b' hid).1
    · cases hnone.symm.trans ((h.declared.introduces id hmem).symm.trans hid)

end

lemma split (hperm : D.Perm (L.filterMap Stmt.decl?)) (f : Findings) : (L.flatMap Stmt.nodes).Perm
      (D.flatMap Decl.head ++ L.flatMap (Stmt.inner f) ++ D.flatMap (Decl.deferred f)) :=
  (stmts_perm f L).trans (((hperm.symm.flatMap_right _).append_right _).append (hperm.symm.flatMap_right _))

lemma proceeds (h : ScopeRun D L s s1 s3) (hs : Sound s) : Proceeds (L.flatMap Stmt.nodes) [] s s3 where
  toAdvances := by
    refine (h.declared.advances hs h.step.toAdvances (fun b hb => ?_) h.settled).perm (split h.perm _).symm
    rcases mem_append.1 hb with hb | hb
    · obtain ⟨d,hd,hb⟩ := mem_flatMap.1 hb
      exact (h.declared.accepted d hd b (Decl.introduces_of_mem_ownFunc hb)).1
    · obtain ⟨st,hst,hb⟩ := mem_flatMap.1 hb
      obtain ⟨d,hd,hb⟩ := Stmt.introduces_of_mem_ownVar hb
      exact (h.declared.accepted d (h.decl_mem hst hd) b hb).1
  fresh := h.fresh
  inSequence := h.inSequence

end ScopeRun

/-- The declarations of a scope are bound, in whatever order they are, and then its statements are examined. -/
theorem exists_scopeRun {L : List Stmt} {D : List Decl} {s : State}
    (hperm : D.Perm (L.filterMap Stmt.decl?)) (hL : ∀ st ∈ L, st.Examined)
    (hready : Ready (L.flatMap Stmt.nodes) s) (hcalm : Calm s) :
    ∃ s1 s3, ((do
      declareAll D
      L.forM fun st => reported st.check : Run Unit).run s).2 = s3 ∧ ScopeRun D L s s1 s3 ∧ s3.Covers (L.flatMap Stmt.nodes) := by
  have hdecls : Ready (D.flatMap Decl.nodes) s :=
    (hready.sublist (decls_sublist L)).perm (hperm.symm.flatMap_right Decl.nodes)
  have hnodup := nodup_map_id hdecls.nodup
  have hdeclared : Declared D s ((D.forM (declareOne s.scopes.current)).run s).2 := by
    refine declare_declared _ D s hnodup (fun d hd => ?_) fun b c hc => ?_
    · exact hdecls.undeclared _ (Declared.decl_id_mem (mem_map_of_mem hd))
    · obtain ⟨-,type,stage,hr⟩ := hready.sound.declared b c hc
      rw [hr]
      exact Option.some_ne_none _
  have hrun : ((do
      declareAll D
      L.forM fun st => reported st.check : Run Unit).run s).2 = ((do
        D.forM fun d => reported (signature d)
        L.forM fun st => reported st.check : Run Unit).run ((D.forM (declareOne s.scopes.current)).run s).2).2 := rfl
  generalize ((D.forM (declareOne s.scopes.current)).run s).2 = s1 at hdeclared hrun
  have hsplit := ScopeRun.split hperm s1.toFindings
  have hall := hready.perm hsplit
  have hbetween := hdeclared.between hdecls hcalm
  have hready1 : Ready (D.flatMap Decl.head ++ L.flatMap (Stmt.inner s1.toFindings)) s1 := by
    refine hdeclared.ready (hdeclared.sound hdecls hcalm) hall (fun d hd => ?_) fun c b hc hb x hx => ?_
    · exact mem_flatMap.2 ⟨d,hd,d.self_mem_deferred _⟩
    · exact mem_flatMap.2 ⟨_,hc,Decl.deferred_const hb ▸ hx⟩
  have hids (d) (hd : d ∈ D) : d.id ∉ (D.flatMap Decl.head ++ L.flatMap (Stmt.inner s1.toFindings)).map Node.id := fun hid =>
    hall.disjoint hid (id_mem_of_decl (mem_flatMap.2 ⟨d,hd,d.self_mem_deferred _⟩))
  obtain ⟨hstep,hdone,hcovers,hpasses⟩ :=
    hdeclared.phases_run hcalm hperm hnodup hL hbetween hready1 hids
  have hbetween3 := hbetween.step hready1.sound hstep.toAdvances hids
  have hscope : ScopeRun D L s s1 _ :=
    ⟨hdeclared,hperm,hready.nodup,hready1,hstep,hbetween3,hdone,hpasses⟩
  refine ⟨s1,_,hrun,hscope,?_⟩
  exact (hcovers.append (hdeclared.covers_deferred hbetween3 hstep.toAdvances hscope.settled)).perm hsplit.symm

lemma hoisted_examines {L : List Stmt} {D : List Decl} (hperm : D.Perm (L.filterMap Stmt.decl?)) (hL : ∀ st ∈ L, st.Examined) :
    Examines (L.flatMap Stmt.nodes) (do
      declareAll D
      L.forM fun st => reported st.check) := by
  intro s hready hcalm
  obtain ⟨s1,s3,hrun,hscope,hcovers⟩ := exists_scopeRun hperm hL hready hcalm
  unfold Runs
  rw [hrun]
  exact ⟨hscope.proceeds hready.sound,hcovers⟩

end Opal
