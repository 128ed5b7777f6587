import Mathlib.Data.List.Forall2
import Opal.Proofs.ExactValues

/-!
# Findings that agree

A check only adds to its findings, so what is said of some nodes stays true while others are examined.
-/

namespace Opal

open List Option

variable {m : Bool} {e x : Expr} {id : NodeId} {t : Ty} {v : Value}

/-- What a name is bound to may change until its type is known. What sort of thing it is, and whether a
variable is mutable, never changes. -/
inductive Referent.Moves : Referent → Referent → Prop where
  | refl (r : Referent) : Moves r r
  | var (mutable : Bool) (stage : VarStage) (type : Option Ty) (stage' : VarStage) :
    Moves (.var none mutable stage) (.var type mutable stage')
  | const (stage : ConstStage) (type : Option Ty) (stage' : ConstStage) (h : ∀ v, stage ≠ .done v) :
    Moves (.const none stage) (.const type stage')
  | func (type : Ty) (params : List Formal) : Moves (.func .error []) (.func type params)

namespace Referent.Moves

variable {r r' r'' : Referent}

lemma trans (h : r.Moves r') (h' : r'.Moves r'') : r.Moves r'' := by
  cases h with
  | refl => exact h'
  | var mutable stage type stage' => cases h' <;> exact .var ..
  | const stage type stage' h =>
    cases h' with
    | refl | const => exact .const _ _ _ h
  | func type params => cases h' <;> exact .func ..

lemma type?_eq (h : r.Moves r') (hr : r.type? = some t) (ht : t ≠ .error) : r'.type? = some t := by
  cases h with
  | refl => exact hr
  | var | const => cases hr
  | func => exact absurd (Option.some.inj hr).symm ht

lemma mutability_eq (h : r.Moves r') : r'.mutability = r.mutability := by
  cases h <;> rfl

lemma isFunc_eq (h : r.Moves r') : r'.isFunc = r.isFunc := by
  cases h <;> rfl

lemma value?_eq (h : r.Moves r') (hr : r.value? = some v) : r'.value? = some v := by
  cases h with
  | refl => exact hr
  | var | func => cases hr
  | const stage type stage' h =>
    cases stage with
    | done u => exact absurd rfl (h u)
    | pending | inProgress | failed => cases hr

end Referent.Moves

namespace Findings

/-- `f'` says of the nodes of `N` what `f` says, and what `f` knows of bindings is still true. -/
structure Agrees (N : List Node) (f f' : Findings) : Prop where
  typeOf : ∀ id ∈ N.map Node.id, f'.typeOf[id]? = f.typeOf[id]?
  refersTo : ∀ id ∈ N.map Node.id, f'.refersTo[id]? = f.refersTo[id]?
  valueOf : ∀ id ∈ N.map Node.id, f'.valueOf[id]? = f.valueOf[id]?
  introduces : ∀ id ∈ N.map Node.id, f'.introduces[id]? = f.introduces[id]?
  moves : ∀ b r, f.referent? b = some r → ∃ r', f'.referent? b = some r' ∧ r.Moves r'
  errors : f.errors ≠ #[] → f'.errors ≠ #[]

namespace Agrees

variable {N N' : List Node} {f f' f'' : Findings}

lemma refl (N : List Node) (f : Findings) : Agrees N f f :=
  ⟨fun _ _ => rfl,fun _ _ => rfl,fun _ _ => rfl,fun _ _ => rfl,fun _ r h => ⟨r,h,.refl r⟩,id⟩

section

variable (h : Agrees N f f')
include h

lemma trans (h' : Agrees N f' f'') : Agrees N f f'' where
  typeOf id hid := (h'.typeOf id hid).trans (h.typeOf id hid)
  refersTo id hid := (h'.refersTo id hid).trans (h.refersTo id hid)
  valueOf id hid := (h'.valueOf id hid).trans (h.valueOf id hid)
  introduces id hid := (h'.introduces id hid).trans (h.introduces id hid)
  moves b r hr := by
    obtain ⟨r',hr',hm⟩ := h.moves b r hr
    obtain ⟨r'',hr'',hm'⟩ := h'.moves b r' hr'
    exact ⟨r'',hr'',hm.trans hm'⟩
  errors := h'.errors ∘ h.errors

lemma mono (hN : N' ⊆ N) : Agrees N' f f' where
  typeOf id hid := h.typeOf id (map_subset _ hN hid)
  refersTo id hid := h.refersTo id (map_subset _ hN hid)
  valueOf id hid := h.valueOf id (map_subset _ hN hid)
  introduces id hid := h.introduces id (map_subset _ hN hid)
  moves := h.moves
  errors := h.errors

lemma typeAt (he : Node.expr e ∈ N) : f'.typeAt e = f.typeAt e :=
  h.typeOf _ (id_mem_of_expr he)

/-- A name still refers to the same binding, which may have moved on. -/
theorem referentAt (hid : id ∈ N.map Node.id) {r : Referent}
    (hr : f.referentAt id = some r) : ∃ r', f'.referentAt id = some r' ∧ r.Moves r' := by
  obtain ⟨b,hb,hr⟩ := bind_eq_some_iff.1 hr
  obtain ⟨r',hr',hm⟩ := h.moves b r hr
  exact ⟨r',bind_eq_some_iff.2 ⟨b,(h.refersTo id hid).trans hb,hr'⟩,hm⟩

/-- The value of a constant stays known. -/
theorem constantAt (hid : id ∈ N.map Node.id) (hv : f.constantAt id = some v) : f'.constantAt id = some v := by
  obtain ⟨r,hr,hv⟩ := bind_eq_some_iff.1 hv
  obtain ⟨r',hr',hm⟩ := h.referentAt hid hr
  exact bind_eq_some_iff.2 ⟨r',hr',hm.value?_eq hv⟩

end

end Agrees

end Findings

mutual

/-- Whether a place can be changed stays the same. -/
theorem Expr.mutability_agrees {N : List Node} {f f' : Findings} (h : Findings.Agrees N f f') (e : Expr) (hN : e.nodes ⊆ N)
    (hm : e.mutability f = some m) : e.mutability f' = some m := by
  obtain ⟨id,span,form⟩ := e
  have hid : Node.expr ⟨id,span,form⟩ ∈ N := hN (by simp)
  exact form.mutability_agrees h (h.refersTo id (id_mem_of_expr hid)) (fun x hx => hN (mem_append_left _ hx)) hm

lemma ExprForm.mutability_agrees {N : List Node} {f f' : Findings} (h : Findings.Agrees N f f') {id : NodeId}
    (hid : f'.refersTo[id]? = f.refersTo[id]?) (form : ExprForm) (hN : form.nodes ⊆ N)
    (hm : form.mutability f id = some m) : form.mutability f' id = some m := by
  cases form with
  | name =>
    rw [ExprForm.mutability] at hm ⊢
    obtain ⟨r,hr,hm⟩ := bind_eq_some_iff.1 hm
    obtain ⟨b,hb,hr⟩ := bind_eq_some_iff.1 hr
    obtain ⟨r',hr',hmoves⟩ := h.moves b r hr
    have hat : f'.referentAt id = some r' := bind_eq_some_iff.2 ⟨b,hid.trans hb,hr'⟩
    rw [hat, bind_some, hmoves.mutability_eq, hm]
  | paren e => exact e.mutability_agrees h hN hm
  | index base _ => exact base.mutability_agrees h (fun x hx => hN (mem_append_left _ hx)) hm
  | deref e =>
    rw [ExprForm.mutability] at hm ⊢
    rwa [h.typeAt (hN e.self_mem_nodes)]
  | _ => simp [ExprForm.mutability] at hm

end

namespace Findings

variable {N : List Node} [Closed N] {f f' : Findings}

/-! ## The rules -/

lemma Fits.agrees (h : f.Fits e t) (hagree : f'.typeAt e = f.typeAt e) : f'.Fits e t := by
  obtain ⟨u,hu,hfit⟩ := h
  exact ⟨u,hagree.trans hu,hfit⟩

omit [Closed N] in
/-- The body of a lambda still gives its result type. -/
theorem ObeysBody.agrees {ret : Ty} {body : LambdaBody} (h : f.ObeysBody ret body)
    (ha : Agrees body.nodes f f') : f'.ObeysBody ret body := by
  cases body with
  | expr x =>
    obtain ⟨u,hu,hfit⟩ := h
    exact ⟨u,(ha.typeAt (by rw [LambdaBody.nodes]; exact x.self_mem_nodes)).trans hu,hfit⟩
  | block b => trivial

omit [Closed N] in
/-- An expression obeys its rule as long as the findings say the same of its parts. -/
theorem Obeys.agrees (h : f.Obeys e t) (ha : Agrees e.form.nodes f f')
    (hid : f'.refersTo[e.id]? = f.refersTo[e.id]?) (ht : t ≠ .error) : f'.Obeys e t := by
  obtain ⟨id,span,form⟩ := e
  cases form with
  | name =>
    obtain ⟨r,hr,hrt⟩ := h
    obtain ⟨b,hb,hr⟩ := bind_eq_some_iff.1 hr
    obtain ⟨r',hr',hm⟩ := ha.moves b r hr
    exact ⟨r',bind_eq_some_iff.2 ⟨b,hid.trans hb,hr'⟩,hm.type?_eq hrt ht⟩
  | binary op l r =>
    have hl := ha.typeAt (e := l) (by simp [l.self_mem_nodes])
    have hr := ha.typeAt (e := r) (by simp [r.self_mem_nodes])
    simp only [Obeys, ObeysBinary] at h ⊢
    rwa [hl, hr]
  | unary op x =>
    have hx := ha.typeAt (e := x) (by simp [x.self_mem_nodes])
    cases op with
    | neg =>
      simp only [Obeys, ObeysNegation] at h ⊢
      rwa [hx]
    | not =>
      simp only [Obeys] at h ⊢
      rwa [hx]
  | addressOf x =>
    have hx := ha.typeAt (e := x) (by simp [x.self_mem_nodes])
    obtain ⟨m,u,hu,hm,rfl⟩ := h
    have hsub : x.nodes ⊆ (ExprForm.addressOf x).nodes := by
      rw [ExprForm.nodes]; exact List.Subset.refl _
    exact ⟨m,u,hx.trans hu,x.mutability_agrees ha hsub hm,rfl⟩
  | deref x =>
    have hx := ha.typeAt (e := x) (by simp [x.self_mem_nodes])
    simp only [Obeys] at h ⊢
    rwa [hx]
  | index base index =>
    have hb := ha.typeAt (e := base) (by simp [base.self_mem_nodes])
    have hi := ha.typeAt (e := index) (by simp [index.self_mem_nodes])
    simp only [Obeys] at h ⊢
    rwa [hb, hi]
  | call callee args =>
    have hc := ha.typeAt (e := callee) (by simp [callee.self_mem_nodes])
    obtain ⟨params,hcallee,bound,hperm,hbound⟩ := h
    refine ⟨params,hc.trans hcallee,bound,hperm,?_⟩
    obtain ⟨hlen,hfits⟩ := forall₂_iff_zip.1 hbound
    refine forall₂_iff_zip.2 ⟨hlen,fun hmem => (hfits hmem).agrees (ha.typeAt ?_)⟩
    have harg := hperm.mem_iff.1 (of_mem_zip hmem).1
    simp [mem_argumentNodes harg]
  | array elements =>
    obtain ⟨element,rfl,hel⟩ := h
    refine ⟨element,rfl,fun x hx => (hel x hx).agrees (ha.typeAt ?_)⟩
    simpa using mem_exprNodes hx
  | lambda params ret body =>
    obtain ⟨types,r,rfl,hlen,hbody⟩ := h
    refine ⟨types,r,rfl,hlen,hbody.agrees (ha.mono ?_)⟩
    exact subset_append_right _ _
  | paren x =>
    have hx := ha.typeAt (e := x) (by simp [x.self_mem_nodes])
    simp only [Obeys] at h ⊢
    rwa [hx]
  | _ => exact h

lemma ObeysOn.agrees (h : f.ObeysOn N) (ha : Agrees N f f') : f'.ObeysOn N := by
  intro e he t ht
  rw [ha.typeAt he] at ht
  obtain ⟨hres,hobeys⟩ := h e he t ht
  refine ⟨hres,hobeys.imp_left fun hobeys => ?_⟩
  refine hobeys.agrees (ha.mono fun x hx => ?_) (ha.refersTo _ (id_mem_of_expr he)) (Ty.ne_error_of_isResult hres)
  exact Closed.sub e he x (e.nodes_eq ▸ mem_append_left _ hx)

lemma ObeysOn.append {N1 N2 : List Node} (h1 : f.ObeysOn N1) (h2 : f.ObeysOn N2) : f.ObeysOn (N1 ++ N2) := by
  intro e he t ht
  rcases mem_append.1 he with he | he
  · exact (h1 e he t ht).imp_right (.imp_right (·.mono (subset_append_left _ _)))
  · exact (h2 e he t ht).imp_right (.imp_right (·.mono (subset_append_right _ _)))

/-! ## Coverage -/

lemma namesFunction_agrees (ha : Agrees N f f') (h : f.Complete N)
    (he : Node.expr e ∈ N) : f'.namesFunction e = f.namesFunction e := by
  have hmem := Closed.sub e he _ e.withoutParens_mem_nodes
  unfold namesFunction
  cases hform : e.withoutParens.form with
  | name name =>
    obtain ⟨r,hr⟩ := isSome_iff_exists.1 (h.resolved _ name hmem hform)
    obtain ⟨r',hr',hm⟩ := ha.referentAt (id_mem_of_expr hmem) hr
    simp only [hr, hr', any_some, hm.isFunc_eq]
  | _ => rfl

/-- The same expressions are looked through, as long as all types are known. -/
theorem skips_agrees (ha : Agrees N f f') (h : f.Complete N) (he : Node.expr e ∈ N) : e.skips f' = e.skips f := by
  unfold Expr.skips
  split
  · rfl
  · next callee args hform =>
    have hcallee : Node.expr callee ∈ e.form.nodes := by
      simp [hform, callee.self_mem_nodes]
    rw [namesFunction_agrees ha h (Closed.part he hcallee)]
  · rfl

lemma mem_nodes_of_mem_skips (hx : x ∈ e.skips f) : Node.expr x ∈ e.form.nodes := by
  unfold Expr.skips at hx
  split at hx
  · next y hform =>
    split at hx
    · simpa [hform] using y.mem_nodes_of_mem_insideParens hx
    · cases hx
  · next callee args hform =>
    split at hx
    · have hx := callee.mem_nodes_of_mem_insideParens (dropLast_subset _ hx)
      simp [hform, hx]
    · cases hx
  · cases hx

/-- Findings that are complete stay complete. -/
theorem Complete.agrees (h : f.Complete N) (ha : Agrees N f f') : f'.Complete N where
  typed e he ht := by
    rw [ha.typeAt he] at ht
    obtain ⟨p,hp,hep⟩ := h.typed e he ht
    exact ⟨p,hp,by rwa [skips_agrees ha h hp]⟩
  skipped p hp x hx := by
    rw [skips_agrees ha h hp] at hx
    rw [ha.typeAt (Closed.part hp (mem_nodes_of_mem_skips hx))]
    exact h.skipped p hp x hx
  resolved e name he hform := by
    obtain ⟨r,hr⟩ := isSome_iff_exists.1 (h.resolved e name he hform)
    obtain ⟨r',hr',-⟩ := ha.referentAt (id_mem_of_expr he) hr
    rw [hr']
    rfl
  introduced d hd := by
    rw [ha.introduces _ (id_mem_of_decl hd)]
    exact h.introduced d hd

/-- An expression keeps its value. -/
theorem Evaluates.agrees (h : f.Evaluates e v) (ha : Agrees e.nodes f f') : f'.Evaluates e v := by
  -- Names keep the values they stand for, so every expression inside keeps its own.
  have exact {x : Expr} {y : Exact} (hx : Node.expr x ∈ e.nodes) (hy : x.exact f.exactAt = some y) :
      x.exact f'.exactAt = some y := by
    refine x.exact_mono (fun id hid z hz => ?_) hy
    obtain ⟨u,hu,rfl⟩ := map_eq_some_iff.1 hz
    exact map_eq_some_iff.2 ⟨u,ha.constantAt (Closed.id_mem hx hid) hu,rfl⟩
  refine ⟨exact e.self_mem_nodes h.exact,(ha.typeAt e.self_mem_nodes).trans h.typed,h.inRange,
    fun x name hx hform => ?_,fun x hx => ?_⟩
  · obtain ⟨u,hu⟩ := isSome_iff_exists.1 (h.named x name hx hform)
    rw [ha.constantAt (id_mem_of_expr hx) hu]
    rfl
  · obtain ⟨u,hu,htype,hrange⟩ := h.ranges x hx
    have hmem := e.mem_nodes_of_mem_evaluated x hx
    exact ⟨u,exact hmem hu,(ha.typeAt hmem).trans htype,hrange⟩

lemma Solved.agrees {d : ConstDecl} (h : f.Solved d v) (ha : Agrees d.nodes f f') : f'.Solved d v := by
  rw [d.nodes_eq] at ha
  refine ⟨?_,h.annotation,h.evaluates.agrees (ha.mono ?_),h.complete.agrees (ha.mono ?_)⟩
  · have hmem : Node.decl (.const d) ∈ d.parts ++ [.decl (.const d)] := by simp
    exact (ha.valueOf _ (id_mem_of_decl hmem)).trans h.recorded
  · intro x hx
    simp [ConstDecl.parts, hx]
  · exact subset_append_left _ _

end Findings

end Opal
