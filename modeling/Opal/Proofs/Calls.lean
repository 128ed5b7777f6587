import Opal.Proofs.BoundArguments
import Opal.Proofs.CompoundExpressions

/-!
# Calls

Arguments are examined in the order of the parameters they are bound to. A function that is called by its name is not examined
as a value.
-/

namespace Opal

open Findings (Agrees)
open List

/-! ## The arguments -/

/-- Each argument fits the type of its parameter, and what is inside of it was examined. -/
theorem checkArguments_meets : ∀ (ts : List Ty) (args : List ArgumentOperand) (s : State),
    (∀ t ∈ ts, t.isValue = true) → (∀ a ∈ args, a.value.Examined) → args.length = ts.length →
      Ready (exprNodes (args.map (·.value.expr))) s → Calm s →
        Meets (exprNodes (args.map (·.value.expr))) s (checkArguments ts args) fun _ s' =>
          args.Forall₂ (fun a t => s'.Fits a.value.expr t) ts ∧ s'.Covers (exprNodes (args.map (·.value.expr)))
  | [], [], s, _, _, _, hready, _ => by
    refine .pure hready ⟨.nil,?_⟩
    exact .nil
  | t :: ts, a :: args, s, hts, hargs, hlen, hready, hcalm => by
    have ht := Ty.isResult_of_isValue (hts t mem_cons_self)
    refine Meets.bind hready ((hargs a mem_cons_self).against hready.left hcalm ht) fun u s1 hstep hu => ?_
    obtain ⟨hu,hfit⟩ := hu
    refine (checkArguments_meets ts args s1 (fun t' ht' => hts t' (mem_cons_of_mem _ ht'))
      (fun a' ha' => hargs a' (mem_cons_of_mem _ ha')) (Nat.succ.inj hlen) (hready.right hstep)
      (hcalm.step hstep)).mono ?_
    rintro _ s2 _ ⟨hfits,hcovers⟩ ha
    have hu := hu.agrees ha
    exact ⟨.cons ⟨u,hu.typed,hfit⟩ hfits,hu.covers.append hcovers⟩

/-- The arguments of a call as they are examined and as they are written. -/
def Written (args : List ArgumentOperand) (as : List Argument) : Prop :=
  args.Forall₂ (fun o a => o.value.expr = a.value) as

section Arguments

variable {args bound : List ArgumentOperand} {as : List Argument}

lemma Written.nodes_eq (h : Written args as) : argumentNodes as = exprNodes (args.map (·.value.expr)) := by
  induction h with
  | nil => rw [argumentNodes, map_nil, exprNodes]
  | @cons o a args as heq _ ih =>
    obtain ⟨name,value,span⟩ := a
    rw [argumentNodes, Argument.nodes, ih, map_cons, exprNodes, heq]

/-- Arguments that fit the parameters in the order of these fit them in some order as they are written. -/
theorem Written.fits {f : Findings} {ts : List Ty} (h : Written args as) (hperm : bound.Perm args)
    (hfits : bound.Forall₂ (fun o t => f.Fits o.value.expr t) ts) :
    ∃ as' : List Argument, as'.Perm as ∧ as'.Forall₂ (fun a t => f.Fits a.value t) ts := by
  obtain ⟨as',hwritten,hperm'⟩ := perm_comp_forall₂ hperm h
  refine ⟨as',hperm',?_⟩
  clear hperm hperm' h
  induction hwritten generalizing ts with
  | nil => cases hfits; exact .nil
  | cons heq _ ih =>
    cases hfits with
    | cons hfit hfits => exact .cons (heq ▸ hfit) (ih hfits)

end Arguments

/-! ## Declared functions -/

/-- The type of a declared function is noted at its name and at the whole callee. -/
def State.calleeNoted (s : State) (c : Expr) (t : Ty) : State :=
  (s.recorded c.withoutParens.id t).recorded c.id t

section Callee

variable {s s' : State} {c : Expr} {name : String} {t : Ty} {r : Referent}

lemma typeAt_calleeNoted (s : State) (c : Expr) (t : Ty) (x : Expr) : (s.calleeNoted c t).typeAt x =
      if c.id = x.id ∨ c.withoutParens.id = x.id then some t else s.typeAt x := by
  rw [Findings.typeAt, State.calleeNoted, typeOf_recorded, typeOf_recorded]
  by_cases h : c.id = x.id <;> simp [h, Findings.typeAt]

/-- No other type is known inside of the callee. -/
theorem eq_of_typeAt_calleeNoted (hready : Ready c.nodes s) {x : Expr} (hx : Node.expr x ∈ c.nodes)
    {u : Ty} (h : (s.calleeNoted c t).typeAt x = some u) : u = t := by
  rw [typeAt_calleeNoted] at h
  split at h
  · exact (Option.some.inj h).symm
  · cases (hready.untyped _ (id_mem_of_expr hx)).symm.trans h

section

variable (hready : Ready c.nodes s) (hname : c.withoutParens.form = .name name)
include hready hname

section

variable (hat : s.referentAt c.withoutParens.id = some r) (htype : r.type? = some t) (ht : t.isResult = true)
include hat htype ht

lemma Advances.callee : Advances c.nodes [] s (s.calleeNoted c t) := by
  have htarget := id_mem_of_expr c.withoutParens_mem_nodes
  have hself := id_mem_of_expr c.self_mem_nodes
  have hapart {id : NodeId} (hid : id ∈ c.nodes.map Node.id) (b d type stage)
      (hd : s.constant? b = some d) (hr : s.referent? b = some (.const type stage))
      (hstage : stage ≠ .inProgress) : id ∉ d.ids :=
    hready.apart b d type stage hd hr hstage hid
  refine ⟨.trans hready.sound (evolves_recorded htarget [] t) (evolves_recorded hself [] t),
    .step _ (.single trivial) trivial,(hready.sound.recorded t (hapart htarget)).recorded t (hapart hself),fun x hx u hu => ?_,
    (Advances.refl hready []).settled⟩
  obtain rfl := eq_of_typeAt_calleeNoted hready hx hu
  refine ⟨ht,.inl ?_⟩
  obtain ⟨y,hy,-,hwithout⟩ := Expr.mem_nodes_of_leaf (by rw [hname, ExprForm.nodes]) hx
  obtain rfl := Node.expr.inj hy
  rcases x.withoutParens_cases with ⟨y,hform,-,-⟩ | ⟨hx',-⟩
  · simp only [Findings.Obeys, hform]
    intro v hv
    refine eq_of_typeAt_calleeNoted hready ?_ hv
    exact Closed.part hx (by rw [hform, ExprForm.nodes]; exact y.self_mem_nodes)
  · rw [hx'] at hwithout
    subst hwithout
    simp only [Findings.Obeys, hname]
    exact ⟨r,hat,htype⟩

/-- Noting it is a step of the check. -/
theorem Proceeds.callee : Proceeds c.nodes [] s (s.calleeNoted c t) where
  toAdvances := .callee hready hname hat htype ht
  fresh := (Proceeds.refl hready []).fresh
  inSequence := by
    refine .of_undeclared fun d hd => ?_
    obtain ⟨y,hy,-⟩ := Expr.mem_nodes_of_leaf (by rw [hname, ExprForm.nodes]) hd
    cases hy

end

lemma nodup_callee : ((c :: c.insideParens).map Expr.id).Nodup := by
  have hnodup := hready.nodup
  rw [c.nodes_of_leaf (by rw [hname, ExprForm.nodes]), map_reverse, nodup_reverse, map_map] at hnodup
  exact hnodup

lemma ne_of_mem_dropLast {x : Expr} (hx : x ∈ c.insideParens.dropLast) : ¬ (c.id = x.id ∨ c.withoutParens.id = x.id) := by
  obtain ⟨hnot,hnodup⟩ := nodup_cons.1 (nodup_callee hready hname)
  have hne : c.insideParens ≠ [] := by
    intro h
    rw [h] at hx
    cases hx
  rintro (heq | heq)
  · exact hnot (mem_map.2 ⟨x,(dropLast_sublist _).subset hx,heq.symm⟩)
  · rw [c.insideParens_eq hne, map_append] at hnodup
    exact disjoint_of_nodup_append hnodup (mem_map_of_mem hx) (mem_singleton.2 heq.symm)

lemma completable_namedCall {id : NodeId} {span : Span} {as : List Argument}
    (ha : Agrees c.nodes (s.calleeNoted c t).toFindings s'.toFindings)
    (hfun : s'.namesFunction c = true) (hargs : s'.Complete (argumentNodes as)) : s'.Completable ⟨id,span,.call c as⟩ := by
  have hleaf : c.withoutParens.form.nodes = [] := by rw [hname, ExprForm.nodes]
  have hskips : (Expr.mk id span (.call c as)).skips s'.toFindings = c.insideParens.dropLast := by
    simp [Expr.skips, hfun]
  have hroot {n : Node} (hn : n ∈ (Expr.mk id span (.call c as)).nodes) :
      n = .expr ⟨id,span,.call c as⟩ ∨ n ∈ c.nodes ∨ n ∈ argumentNodes as := by
    rcases mem_append.1 hn with hn | hn
    · exact .inr (mem_append.1 hn)
    · exact .inl (mem_singleton.1 hn)
  -- Inside the callee there are parentheses and the name.
  have hcallee {x : Expr} (hx : Node.expr x ∈ c.nodes) :
      x ∈ c :: c.insideParens ∧ ((∃ y, x.form = .paren y) ∨ x = c.withoutParens) := by
    obtain ⟨y,hy,hmem,hwithout⟩ := Expr.mem_nodes_of_leaf hleaf hx
    obtain rfl := Node.expr.inj hy
    rcases x.withoutParens_cases with ⟨y,hform,-⟩ | ⟨hself,-⟩
    · exact ⟨hmem,.inl ⟨y,hform⟩⟩
    · exact ⟨hmem,.inr (hself.symm.trans hwithout)⟩
  refine ⟨fun x hx hx' => ?_,fun p hp x hx => ?_,fun x name' hx hform => ?_,fun d hd => ?_⟩
  · rw [ExprForm.nodes] at hx
    rcases mem_append.1 hx with hx | hx
    · refine ⟨_,Expr.self_mem_nodes _,hskips ▸ ?_⟩
      rw [ha.typeAt hx, typeAt_calleeNoted] at hx'
      split at hx'
      · cases hx'
      · next hne =>
        rw [not_or] at hne
        have hmem := (mem_cons.1 (hcallee hx).1).resolve_left fun h => hne.1 (h ▸ rfl)
        rw [c.insideParens_eq (ne_nil_of_mem hmem)] at hmem
        refine (mem_append.1 hmem).resolve_right fun h => hne.2 ?_
        rw [mem_singleton.1 h]
    · obtain ⟨p,hp,hxp⟩ := hargs.typed x hx hx'
      refine ⟨p,?_,hxp⟩
      exact mem_append_left _ (mem_append_right _ hp)
  · rcases hroot hp with hp | hp | hp
    · obtain rfl := Node.expr.inj hp
      rw [hskips] at hx
      have hmem := c.mem_nodes_of_mem_insideParens ((dropLast_sublist _).subset hx)
      rw [ha.typeAt hmem, typeAt_calleeNoted, if_neg (ne_of_mem_dropLast hready hname hx)]
      exact hready.untyped _ (id_mem_of_expr hmem)
    · rcases (hcallee hp).2 with ⟨y,hform⟩ | rfl
      · simp [Expr.skips, hform] at hx
      · simp [Expr.skips, hname] at hx
    · exact hargs.skipped p hp x hx
  · rcases hroot hx with hx | hx | hx
    · obtain rfl := Node.expr.inj hx
      cases hform
    · rcases (hcallee hx).2 with ⟨y,hform'⟩ | rfl
      · cases hform.symm.trans hform'
      · simp only [Findings.namesFunction, hname] at hfun
        exact Option.isSome_of_any hfun
    · exact hargs.resolved x name' hx hform
  · rw [ExprForm.nodes] at hd
    rcases mem_append.1 hd with hd | hd
    · obtain ⟨y,hy,-⟩ := Expr.mem_nodes_of_leaf hleaf hd
      cases hy
    · exact hargs.introduced d hd

end

end Callee

/-! ## The rule of calls -/

section Calls

variable {s : State} {callee : Operand} {args : List ArgumentOperand} {as : List Argument} {params : List Formal} {t : Ty}
  {expected : Option Ty} {id : NodeId} {span : Span} {name : String}

/-- A call of a declared function gives its result type, and each argument fits the parameter it is bound to. -/
theorem boundArguments_meets {types : List Ty} {ret : Ty} (hargs : ∀ a ∈ args, a.value.Examined) (hwritten : Written args as)
    (htypes : params.map (·.type) = types) (ht : t = .function types ret) (hvalue : t.isValue = true)
    (hready : Ready (argumentNodes as) s) (hcalm : Calm s) :
    Meets (argumentNodes as) s (namedCall name t params args span) fun result s' =>
      result = ret ∧ s'.Covers (argumentNodes as) ∧
        ∃ as' : List Argument, as'.Perm as ∧ as'.Forall₂ (fun a p => s'.Fits a.value p) types := by
  subst ht htypes
  have hbinds : Meets [] s (Check.ofExcept (bindArguments name params args span)) fun bound s' =>
      s' = s ∧ bindArguments name params args span = .ok bound :=
    .ofExcept (.nil hready.sound) fun bound h => ⟨rfl,h⟩
  refine Meets.bindNil hready hbinds ?_
  rintro bound s1 - ⟨rfl,hbound⟩
  obtain ⟨hperm,hlen⟩ := bindArguments_perm hbound
  have hnodes : (exprNodes (bound.map (·.value.expr))).Perm (argumentNodes as) :=
    hwritten.nodes_eq ▸ exprNodes_perm (hperm.map _)
  have hready' := hready.perm hnodes.symm
  refine Meets.perm (Meets.thenPure hready' (checkArguments_meets _ bound s1
    ((Ty.isValue_function ..).1 hvalue).1 (fun a ha => hargs a (hperm.mem_iff.1 ha))
    (by simpa using hlen) hready' hcalm) ?_) hnodes fun _ _ h =>
      hwritten.nodes_eq ▸ h.exprs (hperm.map _) hready'.nodup
  rintro _ s2 - ⟨hfits,hcovers⟩
  exact ⟨rfl,hcovers.perm hnodes,hwritten.fits hperm hfits⟩

lemma namedCallee_meets {b : BindingId} (hargs : ∀ a ∈ args, a.value.Examined) (hwritten : Written args as)
    (hname : callee.expr.withoutParens.form = .name name)
    (hid : s.refersTo[callee.expr.withoutParens.id]? = some b)
    (hb : s.referent? b = some (.func t params)) (hne : t ≠ .error)
    (hready : Ready (callee.expr.nodes ++ argumentNodes as) s) (hcalm : Calm s) :
    Meets (callee.expr.nodes ++ argumentNodes as) s (do
        recordType callee.expr.withoutParens.id t
        recordType callee.expr.id t
        namedCall name t params args span)
      (GivesType ⟨id,span,.call callee.expr as⟩ expected) := by
  have hat : s.referentAt callee.expr.withoutParens.id = some (.func t params) :=
    Option.bind_eq_some_iff.2 ⟨b,hid,hb⟩
  obtain ⟨ret,ht,hvalue⟩ : ∃ ret, t = .function (params.map (·.type)) ret ∧ t.isValue = true := by
    rcases hready.sound.wellFormed b _ hb with ⟨herror,-⟩ | h
    · exact absurd herror hne
    · exact h
  have hcallee := Proceeds.callee hready.left hname hat rfl (Ty.isResult_of_isValue hvalue)
  have hnoted : Meets callee.expr.nodes s (liftM (modify (·.calleeNoted callee.expr t) : Run Unit)) fun _ s' =>
        s' = s.calleeNoted callee.expr t :=
    ⟨hcallee,rfl⟩
  refine Meets.of_run_eq (Meets.bind hready hnoted (f := fun _ => namedCall name t params args span) ?_) rfl
  rintro _ s1 hstep rfl
  refine (boundArguments_meets hargs hwritten rfl ht hvalue (hready.right hstep) (hcalm.step hstep)).mono ?_
  rintro _ s2 - ⟨rfl,hcovers,hfits⟩ ha
  have htyped : s2.typeAt callee.expr = some t := by
    rw [ha.typeAt callee.expr.self_mem_nodes, typeAt_calleeNoted, if_pos (.inl rfl)]
  refine ⟨⟨_,ht ▸ htyped,hfits⟩,?_,by simp [Expr.isContextual, ExprForm.isContextual],
    fun hf => completable_namedCall hready.left hname ha ?_ (hcovers hf)⟩
  · exact ((Ty.isValue_function ..).1 (ht ▸ hvalue)).2
  · have htarget := id_mem_of_expr callee.expr.withoutParens_mem_nodes
    obtain ⟨r,hr,hm⟩ := ha.referentAt htarget hat
    simp only [Findings.namesFunction, hname, hr, Option.any_some, hm.isFunc_eq]
    rfl

section

variable (hcallee : callee.Examined) (hargs : ∀ a ∈ args, a.value.Examined) (hwritten : Written args as)
include hcallee hargs hwritten

/-- So does a call of a function value, whose arguments are taken in order. -/
theorem valueCall_meets
    (hnot : ∀ f, Agrees callee.expr.nodes ((callee.value none).run s).2.toFindings f → f.namesFunction callee.expr = false)
    (hready : Ready (callee.expr.nodes ++ argumentNodes as) s) (hcalm : Calm s) :
    Meets (callee.expr.nodes ++ argumentNodes as) s (valueCall callee args span)
      (GivesType ⟨id,span,.call callee.expr as⟩ expected) := by
  refine Meets.bind hready ((hcallee.value none s hready.left hcalm .none).withState (R := fun s' =>
      ∀ f, Agrees callee.expr.nodes s'.toFindings f → f.namesFunction callee.expr = false) hnot)
    fun t s1 hstep ht => ?_
  obtain ⟨ht,hnot⟩ := ht
  have hready1 := hready.right hstep
  cases t with
  | function params ret =>
    obtain ⟨hparams,hret⟩ :=
      (Ty.isValue_function ..).1 (Ty.isValue_of_isResult ht.result (by simp))
    cases args.find? (·.name.isSome) with
    | some a => exact .fail hready1 _ _
    | none =>
      refine .ite (fun _ => .fail hready1 _ _) fun hlen => ?_
      rw [hwritten.nodes_eq] at hready1 ⊢
      refine Meets.thenPure hready1 (checkArguments_meets params args s1 hparams hargs
        (not_not.1 hlen) hready1 (hcalm.step hstep)) ?_
      rintro _ s2 - ⟨hfits,hcovers⟩ ha
      have ht := ht.agrees ha
      refine .of_parts (by simp) ?_ ⟨params,ht.typed,hwritten.fits (.refl _) hfits⟩ hret
        (by simp [Expr.isContextual, ExprForm.isContextual]) ?_
      · simp [Expr.skips, hnot _ ha]
      · rw [ExprForm.nodes, hwritten.nodes_eq]
        exact ht.covers.append hcovers
  | _ =>
    exact .mismatch hready1 _ _ _

/-- A call obeys its rule. -/
theorem callValue_meets (hready : Ready (callee.expr.nodes ++ argumentNodes as) s) (hcalm : Calm s) :
    Meets (callee.expr.nodes ++ argumentNodes as) s (callValue callee args span)
      (GivesType ⟨id,span,.call callee.expr as⟩ expected) := by
  unfold callValue
  dsimp only
  cases hform : callee.expr.withoutParens.form with
  | name name =>
    have htarget := id_mem_of_expr callee.expr.withoutParens_mem_nodes
    have hmem : callee.expr.withoutParens.id ∈ (callee.expr.nodes ++ argumentNodes as).map Node.id := by
      rw [map_append]
      exact mem_append_left _ htarget
    refine Meets.again hready.sound (bindingNamed_meets hready hmem name callee.expr.withoutParens.span) fun b s1 hstep hb => ?_
    obtain ⟨hready1,hlookup,r,hr,rfl⟩ := hb
    have hcalm1 := hcalm.step hstep
    have hid : (s.resolved callee.expr.withoutParens.id b).refersTo[callee.expr.withoutParens.id]? = some b := by
      rw [refersTo_resolved, if_pos rfl]
    -- What is no function by now will be none.
    have hvalue (hfunc : r.isFunc = false) :
        Meets (callee.expr.nodes ++ argumentNodes as) (s.resolved callee.expr.withoutParens.id b)
          (valueCall callee args span) (GivesType ⟨id,span,.call callee.expr as⟩ expected) := by
      refine valueCall_meets hcallee hargs hwritten (fun f ha => ?_) hready1 hcalm1
      have hstep2 := (hcallee.value none _ hready1.left hcalm1 .none).1
      obtain ⟨r',hr',hm⟩ := hstep2.moves hr
      have hnames := hcallee.names name b none _ hform hready1.left hcalm1 hlookup
      obtain ⟨r'',hr'',hm'⟩ := ha.referentAt htarget (Option.bind_eq_some_iff.2 ⟨b,hnames,hr'⟩)
      simp only [Findings.namesFunction, hform, hr'', Option.any_some, hm'.isFunc_eq, hm.isFunc_eq, hfunc]
    refine Meets.read (run_referentOf hr) ?_
    cases r with
    | func t params =>
      dsimp only
      rw [readBinding, bind_assoc]
      refine Meets.read (run_referentOf hr) ?_
      dsimp only
      split
      · next herror =>
        exact (Meets.blocked hready1 (hcalm1.signatures b params (herror ▸ hr))).of_run_eq rfl
      · next hne =>
        rw [pure_bind]
        exact namedCallee_meets hargs hwritten hform hid hr hne hready1 hcalm1
    | var | const => exact hvalue rfl
  | _ =>
    refine valueCall_meets hcallee hargs hwritten (fun f _ => ?_) hready hcalm
    simp [Findings.namesFunction, hform]

end

end Calls

end Opal
