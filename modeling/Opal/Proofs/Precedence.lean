import Opal.Proofs.Agreement

/-!
# Declarations before uses

A variable is used in sequence if its declaration comes before the name in the list of nodes, or is inside of an expression that
the name is not part of.
-/

namespace Opal

open List

/-- Among the nodes of `N` the declaration comes before the expression, or it is inside of an expression of `N` that the
other one is not part of. -/
def Precedes (N : List Node) (d : VarDecl) (x : Expr) : Prop :=
  [.decl (.var d), .expr x].Sublist N ∨ ∃ e, Node.expr e ∈ N ∧ Node.decl (.var d) ∈ e.nodes ∧ Node.expr x ∉ e.nodes

/-- Every name among `N` with a recorded type that refers to a variable which is declared among `N` comes after the
declaration. -/
def Findings.InSequence (f : Findings) (N : List Node) : Prop :=
  ∀ x name d b, Node.expr x ∈ N → x.form = .name name → f.typeAt x ≠ none →
    f.refersTo[x.id]? = some b → Node.decl (.var d) ∈ N → f.introduces[d.id]? = some b → Precedes N d x

/-- No name among `N` with a recorded type refers to the binding. -/
def Findings.Avoids (f : Findings) (N : List Node) (b : BindingId) : Prop :=
  ∀ x name, Node.expr x ∈ N → x.form = .name name → f.typeAt x ≠ none → f.refersTo[x.id]? ≠ some b

/-- Every declaration in the list is inside of one of its expressions. -/
def Enclosed (N : List Node) : Prop :=
  ∀ d, Node.decl d ∈ N → ∃ e, Node.expr e ∈ N ∧ Node.decl d ∈ e.nodes

/-! ## Pairs in lists -/

/-- Two members that come one after the other do so in every part of the list that both are in. -/
theorem pair_sublist_of_mem {α : Type} {a b : α} {M N : List α} (hsub : M.Sublist N) (hN : N.Nodup)
    (h : [a, b].Sublist N) (ha : a ∈ M) (hb : b ∈ M) : [a, b].Sublist M := by
  induction hsub with
  | slnil => cases ha
  | @cons M N c hsub ih =>
    obtain ⟨hc,hN⟩ := nodup_cons.1 hN
    cases h with
    | cons _ h => exact ih hN h ha hb
    | cons_cons _ _ => exact absurd (hsub.subset ha) hc
  | @cons_cons M N c hsub ih =>
    obtain ⟨hc,hN⟩ := nodup_cons.1 hN
    cases h with
    | cons _ h =>
      -- neither of the two is the first member, which comes only once
      have hne {y : α} (hy : y ∈ [a, b]) (hM : y ∈ c :: M) : y ∈ M :=
        (mem_cons.1 hM).resolve_left fun heq => hc (heq ▸ h.subset hy)
      exact (ih hN h (hne (by simp) ha) (hne (by simp) hb)).cons c
    | cons_cons _ h =>
      have hbN : b ∈ N := singleton_sublist.1 h
      have hbM : b ∈ M := (mem_cons.1 hb).resolve_left fun heq => hc (heq ▸ hbN)
      exact (singleton_sublist.2 hbM).cons_cons _

lemma pair_sublist_append {α : Type} {a b : α} {M N : List α} (ha : a ∈ M) (hb : b ∈ N) : [a, b].Sublist (M ++ N) :=
  (singleton_sublist.2 ha).append (singleton_sublist.2 hb)

lemma mem_exprNodes_iff {n : Node} {es : List Expr} : n ∈ exprNodes es ↔ ∃ e ∈ es, n ∈ e.nodes := by
  induction es with
  | nil => simp
  | cons e es ih => simp [ih]

lemma nodes_sublist_exprNodes {e : Expr} : ∀ {es : List Expr}, e ∈ es → e.nodes.Sublist (exprNodes es)
  | e' :: es, he => by
    rcases mem_cons.1 he with rfl | he
    · exact sublist_append_left _ _
    · exact (nodes_sublist_exprNodes he).trans (sublist_append_right _ _)

lemma nodup_of_map_id {N : List Node} (h : (N.map Node.id).Nodup) : N.Nodup :=
  .of_map _ h

/-! ## Declarations that may be used -/

namespace Precedes

variable {N N' M : List Node} {d : VarDecl} {x : Expr}

lemma mono (h : Precedes N d x) (hN : N.Sublist N') : Precedes N' d x := by
  rcases h with h | ⟨e,he,hd,hx⟩
  · exact .inl (h.trans hN)
  · exact .inr ⟨e,hN.subset he,hd,hx⟩

/-- The order of expressions makes no difference, since no declaration in one of them is meant in another. -/
theorem exprs {es es' : List Expr} (h : Precedes (exprNodes es) d x) (hp : es.Perm es')
    (hnodup : ((exprNodes es).map Node.id).Nodup) : Precedes (exprNodes es') d x := by
  rcases h with h | ⟨e,he,hd,hx⟩
  · obtain ⟨e,he,hd⟩ := mem_exprNodes_iff.1 (h.subset (.head _))
    by_cases hx : Node.expr x ∈ e.nodes
    · have hpair := pair_sublist_of_mem (nodes_sublist_exprNodes he) (nodup_of_map_id hnodup) h hd hx
      exact .inl (hpair.trans (nodes_sublist_exprNodes (hp.mem_iff.1 he)))
    · exact .inr ⟨e,mem_exprNodes (hp.mem_iff.1 he),hd,hx⟩
  · obtain ⟨e',he',hmem⟩ := mem_exprNodes_iff.1 he
    exact .inr ⟨e,mem_exprNodes_iff.2 ⟨e',hp.mem_iff.1 he',hmem⟩,hd,hx⟩

lemma swap {l r : Expr} (h : Precedes (r.nodes ++ l.nodes) d x)
    (hnodup : ((r.nodes ++ l.nodes).map Node.id).Nodup) : Precedes (l.nodes ++ r.nodes) d x := by
  have hpair (a b : Expr) : exprNodes [a, b] = a.nodes ++ b.nodes := by simp
  rw [← hpair] at h hnodup ⊢
  exact h.exprs (.swap l r []) hnodup

lemma of_enclosed [hclosed : Closed M] (hM : Enclosed M) (hsub : M ⊆ N)
    (hd : Node.decl (.var d) ∈ M) (hx : Node.expr x ∉ M) : Precedes N d x := by
  obtain ⟨e,he,hd⟩ := hM _ hd
  exact .inr ⟨e,hsub he,hd,fun hmem => hx (hclosed.sub e he _ hmem)⟩

lemma within (h : Precedes N d x) (hnodup : N.Nodup) (hM : M.Sublist N)
    (hd : Node.decl (.var d) ∈ M) (hx : Node.expr x ∈ M) (hM' : M.Sublist N') (hN' : N ⊆ N') : Precedes N' d x := by
  rcases h with h | ⟨e,he,hde,hxe⟩
  · exact .inl ((pair_sublist_of_mem hM hnodup h hd hx).trans hM')
  · exact .inr ⟨e,hN' he,hde,hxe⟩

end Precedes

/-! ## Declarations inside of expressions -/

namespace Enclosed

variable {N1 N2 : List Node}

lemma nil : Enclosed [] := nofun

lemma append (h1 : Enclosed N1) (h2 : Enclosed N2) : Enclosed (N1 ++ N2) := by
  intro d hd
  rcases mem_append.1 hd with hd | hd
  · obtain ⟨e,he,hd⟩ := h1 d hd
    exact ⟨e,mem_append_left _ he,hd⟩
  · obtain ⟨e,he,hd⟩ := h2 d hd
    exact ⟨e,mem_append_right _ he,hd⟩

end Enclosed

lemma Expr.enclosed_nodes (e : Expr) : Enclosed e.nodes :=
  fun _ hd => ⟨e,e.self_mem_nodes,hd⟩

mutual

lemma TypeExpr.enclosed_nodes : ∀ t : TypeExpr, Enclosed t.nodes
  | ⟨_,.named _⟩ => .nil
  | ⟨_,.array element size⟩ => element.enclosed_nodes.append size.enclosed_nodes
  | ⟨_,.reference _ target⟩ => target.enclosed_nodes
  | ⟨_,.function params ret⟩ => (enclosed_typeNodes params).append (enclosed_optionalTypeNodes ret)

lemma enclosed_typeNodes : ∀ ts : List TypeExpr, Enclosed (typeNodes ts)
  | [] => .nil
  | t :: ts => t.enclosed_nodes.append (enclosed_typeNodes ts)

lemma enclosed_optionalTypeNodes : ∀ t : Option TypeExpr, Enclosed (optionalTypeNodes t)
  | none => .nil
  | some t => t.enclosed_nodes

end

lemma enclosed_paramNodes (ps : List Param) : Enclosed (paramNodes ps) := by
  induction ps with
  | nil =>
    exact .nil
  | cons p ps ih =>
    obtain ⟨_,_,_,type,_⟩ := p
    exact type.enclosed_nodes.append ih

lemma VarDecl.enclosed_parts (d : VarDecl) : Enclosed d.parts :=
  (enclosed_optionalTypeNodes d.type).append d.init.enclosed_nodes

lemma ConstDecl.enclosed_parts (d : ConstDecl) : Enclosed d.parts :=
  (enclosed_optionalTypeNodes d.type).append d.value.enclosed_nodes

/-! ## Findings -/

namespace Findings

variable {f f' : Findings} {N N1 N2 : List Node} {b : BindingId}

lemma Avoids.agrees (h : f.Avoids N b) (ha : Agrees N f f') : f'.Avoids N b := by
  intro x name hx hform ht hb
  rw [ha.typeAt hx] at ht
  rw [ha.refersTo _ (id_mem_of_expr hx)] at hb
  exact h x name hx hform ht hb

lemma Avoids.subset (h : f.Avoids N2 b) (hN : N1 ⊆ N2) : f.Avoids N1 b :=
  fun x name hx => h x name (hN hx)

/-- A name with a recorded type refers to something that is bound, and its type is known. -/
theorem ObeysOn.avoids (h : f.ObeysOn N) (hb : ∀ r t, f.referent? b = some r → r.type? = some t → t.isResult = false) :
    f.Avoids N b := by
  intro x name hx hform ht hid
  obtain ⟨t,ht⟩ := Option.ne_none_iff_exists'.1 ht
  obtain ⟨hresult,hobeys | ⟨_,text,_,_,-,-,hint,-⟩⟩ := h x hx t ht
  · rw [Findings.Obeys, hform] at hobeys
    obtain ⟨r,hr,htype⟩ := hobeys
    rw [Findings.referentAt, hid] at hr
    cases hresult.symm.trans (hb r t hr htype)
  · cases hform.symm.trans hint

end Findings

namespace Findings.InSequence

variable {f f' : Findings} {N N1 N2 : List Node}

lemma agrees (h : f.InSequence N) (ha : Agrees N f f') : f'.InSequence N := by
  intro x name d b hx hform ht hb hd hid
  rw [ha.typeAt hx] at ht
  rw [ha.refersTo _ (id_mem_of_expr hx)] at hb
  exact h x name d b hx hform ht hb hd ((ha.introduces _ (id_mem_of_decl hd)).symm.trans hid)

lemma append (h1 : f.InSequence N1) (h2 : f.InSequence N2)
    (h : ∀ d b, Node.decl (.var d) ∈ N2 → f.introduces[d.id]? = some b → f.Avoids N1 b) : f.InSequence (N1 ++ N2) := by
  intro x name d b hx hform ht hb hd hid
  rcases mem_append.1 hx with hx | hx <;> rcases mem_append.1 hd with hd | hd
  · exact (h1 x name d b hx hform ht hb hd hid).mono (sublist_append_left _ _)
  · exact absurd hb (h d b hd hid x name hx hform ht)
  · exact .inl (pair_sublist_append hd hx)
  · exact (h2 x name d b hx hform ht hb hd hid).mono (sublist_append_right _ _)

lemma of_untyped (h : ∀ x, Node.expr x ∈ N → f.typeAt x = none) : f.InSequence N :=
  fun x _ _ _ hx _ ht => absurd (h x hx) ht

lemma of_undeclared (h : ∀ d, Node.decl d ∉ N) : f.InSequence N :=
  fun _ _ d _ _ _ _ _ hd => absurd hd (h (.var d))

end Findings.InSequence

end Opal
